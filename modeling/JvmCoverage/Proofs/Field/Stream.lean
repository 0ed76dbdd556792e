import JvmCoverage.Proofs.Field.Text
import Mathlib.Data.String.Basic
/-!
# Streams of fields

A writer takes fields one after another, and a field that it refuses does not stop it:
`Sink.writeEach` hands over all of them and notes what came of each. Nothing stands between two
fields, and no field says of which kind it is. `Decoder.readEach` is told the kinds. The main
statement is `Sink.readEach_writeEach`: a sink without limit refuses the texts that are too large
and nothing else, and what it took is read back in order.
-/

set_option autoImplicit false
set_option relaxedAutoImplicit false

namespace JvmCoverage

/-- The kinds of fields that can be asked for. A length is written as an integer. -/
inductive FieldKind
  | int
  | signed
  | byte
  | text
  | length
  deriving DecidableEq, Repr

/-- A value that is handed to a writer, or that a reader answers. -/
inductive FieldValue
  | int (value : UInt32)
  | signed (value : Int32)
  | byte (value : UInt8)
  | text (value : String)
  | length (value : Nat)
  deriving DecidableEq, Repr

namespace FieldValue

def kind : FieldValue → FieldKind
  | .int _ => .int
  | .signed _ => .signed
  | .byte _ => .byte
  | .text _ => .text
  | .length _ => .length

/-- The field that is written for the value. -/
def field : FieldValue → Field
  | .int value => .int value
  | .signed value => .signed value
  | .byte value => .byte value
  | .text value => .text value
  | .length value => .count value

/-- The value that the field still holds: a length is only kept modulo `2 ^ 32`. -/
def kept : FieldValue → FieldValue
  | .length value => .length (value % UInt32.size)
  | value => value

/-- Any value but a text has a field, and a text when it is within the limit. -/
def fits : FieldValue → Bool
  | .text value => Field.TextFits value
  | _ => true

/-- What comes of writing the value. -/
def outcome (value : FieldValue) : Except Failure Unit :=
  if value.fits then .ok () else .error (.field .tooLarge)

theorem encode_field_of_fits {value : FieldValue} (hfits : value.fits = true) :
    ∃ bytes, value.field.encode = .ok bytes := by
  cases value with
  | text text => exact ⟨_, if_pos (of_decide_eq_true hfits)⟩
  | _ => exact ⟨_, rfl⟩

theorem encode_field_of_not_fits {value : FieldValue} (hfits : value.fits = false) :
    value.field.encode = .error .tooLarge := by
  cases value with
  | text text => exact if_neg (of_decide_eq_false hfits)
  | _ => cases hfits

end FieldValue

/-! ### Writing -/

namespace Sink

/-- Writes all fields, and says of each what came of it. -/
def writeEach (sink : Sink) : List Field → Sink × List (Except Failure Unit)
  | [] => (sink, [])
  | field :: rest =>
    let (next, outcome) := sink.write field
    let (last, outcomes) := next.writeEach rest
    (last, outcome :: outcomes)

theorem writeEach_cons {sink next : Sink} {field : Field} {outcome : Except Failure Unit}
    (hwrite : sink.write field = (next, outcome)) (rest : List Field) :
    sink.writeEach (field :: rest) =
      ((next.writeEach rest).1, outcome :: (next.writeEach rest).2) := by
  rw [writeEach, hwrite]

/-- A value without field leaves the sink as it is. -/
theorem write_of_not_fits (sink : Sink) {value : FieldValue} (hfits : value.fits = false) :
    sink.write value.field = (sink, .error (.field .tooLarge)) := by
  rw [write, FieldValue.encode_field_of_not_fits hfits]

/-- A text is refused, and nothing of it is written, when it is over the limit together with its
length. -/
theorem write_text_eq_iff {sink : Sink} (hsink : sink.capacity = none) (text : String) :
    sink.write (.text text) = (sink, .error (.field .tooLarge)) ↔
      fieldLimit < (Varint.encode text.utf8ByteSize).length + (Utf8.encode text).length := by
  rw [Utf8.length_encode, ← Nat.not_le]
  constructor
  · intro hwrite hfits
    rw [write_of_encode hsink (show Field.encode (.text text) = _ from if_pos hfits)] at hwrite
    cases (Prod.mk.inj hwrite).2
  · intro hlarge
    have hfits : (FieldValue.text text).fits = false := decide_eq_false hlarge
    exact sink.write_of_not_fits hfits

/-- A sink without limit takes the fields of the values that have one, and refuses the others. -/
theorem writeEach_eq {sink : Sink} (hsink : sink.capacity = none) (values : List FieldValue) :
    ∃ bytes, Field.encodeAll ((values.filter FieldValue.fits).map FieldValue.field) = .ok bytes ∧
      sink.writeEach (values.map FieldValue.field) =
        ({ sink with written := sink.written ++ bytes.toByteArray },
          values.map FieldValue.outcome) := by
  induction values generalizing sink with
  | nil => exact ⟨[], rfl, by simp [writeEach]⟩
  | cons value rest ih =>
    rw [List.map_cons, List.map_cons, FieldValue.outcome]
    cases hfits : value.fits with
    | true =>
      obtain ⟨front, hfront⟩ := FieldValue.encode_field_of_fits hfits
      obtain ⟨back, hback, hrest⟩ :=
        @ih { sink with written := sink.written ++ front.toByteArray } hsink
      refine ⟨front ++ back, ?_, ?_⟩
      · rw [List.filter_cons_of_pos hfits, List.map_cons]
        exact Field.encodeAll_cons_eq_ok_iff.mpr ⟨front, back, hfront, hback, rfl⟩
      · rw [writeEach_cons (write_of_encode hsink hfront), hrest, if_pos rfl,
          List.toByteArray_append, ByteArray.append_assoc]
    | false =>
      obtain ⟨bytes, hbytes, hrest⟩ := ih hsink
      refine ⟨bytes, ?_, ?_⟩
      · rwa [List.filter_cons_of_neg (Bool.eq_false_iff.mp hfits)]
      · rw [writeEach_cons (sink.write_of_not_fits hfits), hrest, if_neg Bool.false_ne_true]

end Sink

/-! ### Reading -/

namespace Decoder

/-- A field of the given kind. -/
def field : FieldKind → Decoder FieldValue
  | .int => do pure (.int (← int))
  | .signed => do pure (.signed (← signed))
  | .byte => do pure (.byte (← byte))
  | .text => do pure (.text (← text))
  | .length => do pure (.length (← count))

/-- A field of each of the given kinds, in order. -/
def readEach : List FieldKind → Decoder (List FieldValue)
  | [] => pure []
  | kind :: kinds => do
    let value ← field kind
    let values ← readEach kinds
    pure (value :: values)

theorem reads_field (value : FieldValue) : Reads (field value.kind) [value.field] value.kept := by
  cases value with
  | int value => exact (reads_int value).bind_pure
  | signed value => exact (reads_signed value).bind_pure
  | byte value => exact (reads_byte value).bind_pure
  | text value => exact (reads_text value).bind_pure
  | length value => exact (reads_count_mod value).bind_pure

theorem reads_readEach (values : List FieldValue) :
    Reads (readEach (values.map FieldValue.kind)) (values.map FieldValue.field)
      (values.map FieldValue.kept) := by
  induction values with
  | nil => exact reads_pure []
  | cons value rest ih => exact (reads_field value).bind_cons ih.bind_pure

end Decoder

theorem utf8ByteSize_replicate (count : Nat) (char : Char) :
    (String.ofList (List.replicate count char)).utf8ByteSize = count * char.utf8Size := by
  rw [String.utf8ByteSize_ofList]
  induction count with
  | zero => simp
  | succ count ih => rw [List.replicate_succ, String.utf8Len_cons, ih, Nat.succ_mul]

/-- A sink without limit refuses exactly the texts that are too large, of which it writes nothing.
What it took of the other values is read back in order by the decoders of their kinds, in front of
whatever follows, which is left. -/
theorem Sink.readEach_writeEach {sink : Sink} (hsink : sink.capacity = none)
    (values : List FieldValue) :
    (sink.writeEach (values.map FieldValue.field)).2 = values.map FieldValue.outcome ∧
      (∀ text : String, sink.write (.text text) = (sink, .error (.field .tooLarge)) ↔
        16777216 < (Varint.encode text.utf8ByteSize).length + (Utf8.encode text).length) ∧
      ∃ bytes, (sink.writeEach (values.map FieldValue.field)).1 =
          { sink with written := sink.written ++ bytes.toByteArray } ∧
        ∀ rest, Decoder.readEach ((values.filter FieldValue.fits).map FieldValue.kind)
            (bytes ++ rest) =
          .ok ((values.filter FieldValue.fits).map FieldValue.kept, rest) := by
  obtain ⟨bytes, hbytes, hwrite⟩ := Sink.writeEach_eq hsink values
  rw [hwrite]
  exact ⟨rfl, Sink.write_text_eq_iff hsink, bytes, rfl, fun rest ↦
    Decoder.reads_readEach (values.filter FieldValue.fits) rest hbytes⟩

/-- Integers on both sides of the bounds of their forms, a text that is one byte over the limit, and
a length that does not fit an integer. -/
theorem Sink.readEach_writeEach_of_large_text :
    let large := String.ofList (List.replicate 8388606 'é')
    let written := ({} : Sink).writeEach (List.map FieldValue.field [.int 250, .int 251,
      .signed Int32.minValue, .text large, .byte 255, .text "é€😀", .int 65536,
      .length (2 ^ 32 + 7)])
    written.2 = [.ok (), .ok (), .ok (), .error (.field .tooLarge), .ok (), .ok (), .ok (),
        .ok ()] ∧
      ∃ bytes, written.1 = { written := .empty ++ bytes.toByteArray } ∧ ∀ rest,
        Decoder.readEach [.int, .int, .signed, .byte, .text, .int, .length] (bytes ++ rest) =
          .ok ([.int 250, .int 251, .signed Int32.minValue, .byte 255, .text "é€😀", .int 65536,
            .length 7], rest) := by
  intro large written
  have hsize : large.utf8ByteSize = 16777212 := by
    have hchar : 'é'.utf8Size = 2 := by decide
    rw [utf8ByteSize_replicate, hchar]
  have hlarge : ¬ Field.TextFits large := by
    have hheader : (Varint.encode 16777212).length = 5 := rfl
    rw [Field.TextFits, hsize, hheader, fieldLimit]
    omega
  have hsmall : Field.TextFits "é€😀" := by decide
  -- nothing below may evaluate the large text
  clear_value large
  obtain ⟨houtcomes, -, bytes, hwritten, hread⟩ := @readEach_writeEach {} rfl
    [.int 250, .int 251, .signed Int32.minValue, .text large, .byte 255, .text "é€😀", .int 65536,
      .length (2 ^ 32 + 7)]
  refine ⟨houtcomes.trans ?_, bytes, hwritten, fun rest ↦ ?_⟩
  · simp [FieldValue.outcome, FieldValue.fits, hlarge, hsmall]
  · simpa [List.filter_cons, FieldValue.fits, hlarge, hsmall, FieldValue.kind, FieldValue.kept,
      UInt32.size] using hread rest

end JvmCoverage
