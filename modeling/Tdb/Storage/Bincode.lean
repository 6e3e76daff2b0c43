import Tdb.Library.Calls
import Tdb.Library.Codec
import Tdb.Storage.Lemmas

namespace Tdb.Storage

open Std Tdb.Library

-- bincode 1.3 as `bincode::serialize` and `bincode::deserialize` set it up: integers of fixed
-- width, low byte first, and a u64 length before every string, vector and map.
namespace Bincode

def u8 : Codec UInt8 := Codec.byte

-- A u64 that counts something.
def count : Codec Nat := Codec.uint 8

theorem count_fits (n : Nat) : count.Fits n ↔ n < 2 ^ 64 := Iff.rfl

def u64 : Codec UInt64 :=
  count.view UInt64.ofNat UInt64.toNat (fun _ => UInt64.ofNat_toNat)
    (fun _ h => UInt64.toNat_ofNat_of_lt' h)

theorem u64_fits (n : UInt64) : u64.Fits n := n.toNat_lt

def vec {α : Type} (c : Codec α) : Codec (List α) := Codec.counted count c

theorem vec_fits {α : Type} (c : Codec α) (xs : List α) :
    (vec c).Fits xs ↔ xs.length < 2 ^ 64 ∧ ∀ x ∈ xs, c.Fits x := Iff.rfl

def utf8 (s : String) : List UInt8 := s.toByteArray.data.toList

def fromUtf8 (bytes : List UInt8) : Option String := String.fromUTF8? ⟨bytes.toArray⟩

theorem fromUtf8_utf8 (s : String) : fromUtf8 (utf8 s) = some s := by
  simp [fromUtf8, utf8, String.fromUTF8?, s.isValidUTF8, String.fromUTF8]

theorem utf8_of_fromUtf8 {bytes : List UInt8} {s : String} (h : fromUtf8 bytes = some s) :
    utf8 s = bytes := by
  unfold fromUtf8 String.fromUTF8? at h
  split at h
  · obtain rfl := Option.some.inj h
    simp [utf8, String.fromUTF8]
  · cases h

theorem utf8_length (s : String) : (utf8 s).length = s.utf8ByteSize := by
  simp [utf8]

-- The bytes of a string are taken at once.
def string : Codec String :=
  (Codec.run count).refine fromUtf8 utf8 fromUtf8_utf8 (fun _ _ _ h => utf8_of_fromUtf8 h)

theorem string_fits (s : String) : string.Fits s ↔ s.utf8ByteSize < 2 ^ 64 := by
  rw [string, Codec.refine_fits, Codec.run_fits, utf8_length, count_fits]

def memChange : Codec MemChange :=
  (u64.pair (u8.pair u8)).view
    (fun (addr, oldVal, newVal) => { addr, oldVal, newVal })
    (fun c => (c.addr, c.oldVal, c.newVal)) (fun _ => rfl) (fun _ _ => rfl)

theorem memChange_fits (c : MemChange) : memChange.Fits c := by
  simp [memChange, u8, u64_fits]

-- The fields in declaration order.
def traceEntry : Codec TraceEntry :=
  (count.pair (u64.pair ((vec u8).pair (string.pair (string.pair (vec memChange)))))).view
    (fun (step, pc, insnBytes, insnText, regs, memChanges) =>
      { step, pc, insnBytes, insnText, regs, memChanges })
    (fun e => (e.step, e.pc, e.insnBytes, e.insnText, e.regs, e.memChanges))
    (fun _ => rfl) (fun _ _ => rfl)

-- A map is the sequence of its pairs.
def records : Codec (List (Nat × TraceEntry)) := vec (count.pair traceEntry)

end Bincode

-- The text of a bad string goes on with the offset of its first bad byte. The io error of a run
-- that is cut has no text of its own.
def describe : DecodeError → String
  | .unexpectedEof => "io error: unexpected end of file"
  | .cutRun => "io error: "
  | .invalid => "string is not valid utf8"

-- A call of `std::fs::write`.
structure FileWrite where
  path : String
  data : List UInt8
deriving DecidableEq, Repr

-- `answer` is what comes back from it.
def writeFile (answer : String → List UInt8 → Except String Unit) (path : String)
    (data : List UInt8) : Calling FileWrite (Except String Unit) :=
  Calling.call { path, data } (answer path data)

namespace TraceDb

def serialize (db : TraceDb) : List UInt8 :=
  Bincode.records.encode db.entries.toList

-- The file that holds a store.
def file (db : TraceDb) : FileWrite :=
  { path := db.path, data := db.serialize }

-- Serializing has no size limit to fail on.
def save (write : String → List UInt8 → Except String Unit) (db : TraceDb) :
    Calling FileWrite (Except String Unit) := do
  match ← writeFile write db.path db.serialize with
  | .error e => return .error s!"Write failed: {e}"
  | .ok () => return .ok ()

-- `data` is what `std::fs::read` returned. Bytes after the map are allowed and ignored, and
-- the pairs are inserted in file order.
def load (data : Except String (List UInt8)) (path : String) : Except String TraceDb :=
  match data with
  | .error e => .error s!"Read failed: {e}"
  | .ok data =>
      match Bincode.records.decode data with
      | .error e => .error s!"Deserialize failed: {describe e}"
      | .ok (pairs, _) => .ok { entries := ExtTreeMap.ofList pairs compare, path }

-- Saving makes one call, and fails when it does.
theorem save_calls (write : String → List UInt8 → Except String Unit) (db : TraceDb) :
    (db.save write).calls = [db.file] := by
  unfold save writeFile
  cases write db.path db.serialize <;> simp [file]

end TraceDb

end Tdb.Storage
