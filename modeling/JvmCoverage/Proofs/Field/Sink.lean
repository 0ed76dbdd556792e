import JvmCoverage.Field.Sink
import JvmCoverage.Proofs.Field.Decoding
/-!
# What reaches a sink

Writing fields one by one comes to the same as handing over the bytes of all of them at once
(`Sink.writeAll_eq_accept`): what fits is kept, and the write succeeds when everything fits
(`Sink.accept_fresh`). Whether a sink can be flushed does not depend on what was written.
-/

set_option autoImplicit false
set_option relaxedAutoImplicit false

namespace JvmCoverage.Sink

theorem accept_nil (sink : Sink) : sink.accept [] = (sink, .ok ()) := by
  unfold accept
  cases hcapacity : sink.capacity with
  | none => simp [← hcapacity]
  | some capacity => simp [← hcapacity]

theorem accept_append (sink : Sink) (front back : List UInt8) :
    sink.accept (front ++ back) =
      match sink.accept front with
      | (next, .ok ()) => next.accept back
      | (next, .error error) => (next, .error error) := by
  unfold accept
  cases hcapacity : sink.capacity with
  | none => simp [List.toByteArray_append, ByteArray.append_assoc]
  | some capacity =>
    by_cases hfront : front.length ≤ capacity - sink.written.size
    · have hroom : capacity - (sink.written.size + front.length) =
          capacity - sink.written.size - front.length := Nat.sub_add_eq ..
      have hlength : front.length + back.length ≤ capacity - sink.written.size ↔
          back.length ≤ capacity - sink.written.size - front.length := by omega
      simp [hfront, List.take_append, List.take_of_length_le, hroom, hlength,
        List.toByteArray_append, ByteArray.append_assoc, List.size_toByteArray]
    · have htake : (front ++ back).take (capacity - sink.written.size) =
          front.take (capacity - sink.written.size) :=
        List.take_append_of_le_length (Nat.le_of_not_le hfront)
      have hlength : ¬ front.length + back.length ≤ capacity - sink.written.size := by omega
      simp [hfront, htake, hlength]

/-- A sink that nothing was written to keeps what fits. -/
theorem accept_fresh {sink : Sink} (hfresh : sink.written = .empty) (bytes : List UInt8) :
    (sink.accept bytes).1.written =
        (bytes.take (sink.capacity.getD bytes.length)).toByteArray ∧
      ((sink.accept bytes).2 = .ok () ↔ bytes.length ≤ sink.capacity.getD bytes.length) := by
  unfold accept
  cases hcapacity : sink.capacity with
  | none => simp [hfresh]
  | some capacity => simp [hfresh]

theorem flush_accept (sink : Sink) (bytes : List UInt8) :
    (sink.accept bytes).1.flush = sink.flush := by
  unfold accept
  cases sink.capacity <;> rfl

theorem flush_writeAll (sink : Sink) (fields : List Field) :
    (sink.writeAll fields).1.flush = sink.flush := by
  have hwrite (sink : Sink) (field : Field) : (sink.write field).1.flush = sink.flush := by
    unfold write
    cases field.encode with
    | ok bytes => exact sink.flush_accept bytes
    | error fault => rfl
  induction fields generalizing sink with
  | nil => rfl
  | cons field rest ih =>
    rw [← hwrite sink field, writeAll]
    rcases sink.write field with ⟨next, _ | _⟩
    · rfl
    · exact ih next

theorem writeAll_append (sink : Sink) (first second : List Field) :
    sink.writeAll (first ++ second) =
      match sink.writeAll first with
      | (next, .ok ()) => next.writeAll second
      | (next, .error error) => (next, .error error) := by
  induction first generalizing sink with
  | nil => rfl
  | cons field rest ih =>
    rw [List.cons_append, writeAll, writeAll]
    rcases sink.write field with ⟨next, _ | _⟩
    · rfl
    · exact ih next

/-- Fields that have an encoded form are written as its bytes. -/
theorem writeAll_eq_accept (sink : Sink) {fields : List Field} {bytes : List UInt8}
    (hbytes : Field.encodeAll fields = .ok bytes) : sink.writeAll fields = sink.accept bytes := by
  induction fields generalizing sink bytes with
  | nil =>
    cases hbytes
    exact sink.accept_nil.symm
  | cons field rest ih =>
    obtain ⟨front, back, hfront, hback, rfl⟩ := Field.encodeAll_cons_eq_ok_iff.mp hbytes
    rw [accept_append, writeAll, write, hfront]
    dsimp only
    rcases sink.accept front with ⟨next, _ | _⟩
    · rfl
    · exact ih next hback

end JvmCoverage.Sink
