import JvmCoverage.Field.Decoder
import JvmCoverage.Line.Basic
/-!
# Layout of a line record

`LineRecord.fields` lists the fields that a line record is written as, `LineRecord.decode` reads
them back. The owner of the line is not among them, because a report groups lines by owner. Ids
are not written either: a branch is identified by its position, and read back under it. The number
of arms of a switch follows from its keys.
-/

set_option autoImplicit false
set_option relaxedAutoImplicit false

namespace JvmCoverage

namespace CaseKeys

/-- The largest number of arms that a report can hold. -/
def maxArity : Nat := UInt32.size - 1

/-- A tag byte, 0 for listed keys and 1 for a range, and the keys. -/
def fields : CaseKeys → List Field
  | listed keys => .byte 0 :: .count keys.length :: keys.map .signed
  | range min max => [.byte 1, .signed min, .signed max]

def decode : Decoder CaseKeys := do
  let tag ← Decoder.byte
  if tag = 0 then
    let keys ← Decoder.collect Decoder.signed (← Decoder.count)
    pure (listed keys.toList)
  else if tag = 1 then
    let min ← Decoder.signed
    let max ← Decoder.signed
    pure (range min max)
  else Decoder.fail (.malformed (.unknownSwitchTag tag))

end CaseKeys

namespace JumpRecord

def fields (jump : JumpRecord) : List Field := [.int jump.taken.value, .int jump.fallen.value]

def decode (id : UInt32) : Decoder JumpRecord := do
  let taken ← Decoder.int
  let fallen ← Decoder.int
  pure { id, taken := ⟨taken⟩, fallen := ⟨fallen⟩ }

end JumpRecord

namespace SwitchRecord

/-- The keys, the default counter, and a counter per arm. -/
def fields (switch : SwitchRecord) : List Field :=
  switch.keys.fields ++ .int switch.unmatched.value :: switch.arms.values.map .int

def decode (id : UInt32) : Decoder SwitchRecord := do
  let keys ← CaseKeys.decode
  let unmatched ← Decoder.int
  if CaseKeys.maxArity < keys.arity then Decoder.fail (.malformed .switchTooWide)
  else
    let arms ← Decoder.collect Decoder.int keys.arity
    pure { id, keys, unmatched := ⟨unmatched⟩, arms := ⟨arms.map Counter.mk⟩ }

end SwitchRecord

namespace LineRecord

/-- Line number, executions, jumps and switches. -/
def fields (record : LineRecord) : List Field :=
  .int record.line :: .int record.hits.value ::
    .count record.jumps.size :: record.jumps.toList.flatMap JumpRecord.fields ++
    .count record.switches.size :: record.switches.toList.flatMap SwitchRecord.fields

/-- Reads branches of a line, giving each its position as id. -/
def decodeBranches {α : Type} (decode : UInt32 → Decoder α) (length : Nat) : Decoder (Array α) :=
  Decoder.iterate
    (fun branches ↦ do pure (branches.push (← decode (UInt32.ofNat branches.size)))) length #[]

/-- Reads a record owned by `signature`. -/
def decode (signature : String) : Decoder LineRecord := do
  let line ← Decoder.int
  if highestLineNumber < line then Decoder.fail (.malformed (.lineTooHigh line))
  else
    let hits ← Decoder.int
    let jumps ← decodeBranches JumpRecord.decode (← Decoder.count)
    let switches ← decodeBranches SwitchRecord.decode (← Decoder.count)
    pure { line, signature, hits := ⟨hits⟩, jumps, switches }

end LineRecord

end JvmCoverage
