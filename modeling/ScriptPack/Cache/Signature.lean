import ScriptPack.Digest.Sha256
import ScriptPack.FileSystem.Operations
import ScriptPack.Number.Decimal
import ScriptPack.Text.Utf8

/-!
Signatures: what a build is filed under. A signature is the digest of a text with the digest of the
script, its time of modification in seconds, and the arguments of the build.
-/

namespace ScriptPack

def Bytes.ofText (text : String) : Bytes := Text.Utf8.encode text

/-- A time of modification in milliseconds. -/
def Stamp.milliseconds (stamp : Stamp) : Number :=
  Number.ofInt (stamp.seconds * 1000) + Number.ofNat stamp.nanoseconds / 1000000

namespace Signature

/-- How many bytes of a file are read at a time. -/
def chunkSize : Nat := 65536

/-- A file that is being read: the bytes that are still to come, and the buffer, in which what
earlier reads brought stays until it is overwritten. -/
structure Reader where
  ahead : Bytes
  buffer : Bytes

namespace Reader

def opened (content : Bytes) : Reader := ⟨content, List.replicate chunkSize 0⟩

/-- How many bytes a read brings when up to the given number of them are to be had. -/
def count (reader : Reader) (granted : Nat) : Nat :=
  min (min granted chunkSize) reader.ahead.length

/-- The bytes that are read go to the front of the buffer. -/
def read (reader : Reader) (granted : Nat) : Reader where
  ahead := reader.ahead.drop (reader.count granted)
  buffer := reader.ahead.take (reader.count granted) ++ reader.buffer.drop (reader.count granted)

theorem length_ahead_read {reader : Reader} {granted : Nat} (h : reader.count granted ≠ 0) :
    (reader.read granted).ahead.length < reader.ahead.length := by
  simp only [read, List.length_drop, count] at *
  omega

end Reader

/-- Reads until a read brings nothing, and takes in after each read the part of the buffer that it
has filled. How much each of the reads brings is up to the system. -/
def feed {σ : Type} (update : σ → Bytes → σ) (granted : Nat → Nat) (turn : Nat) (state : σ)
    (reader : Reader) : σ :=
  if reader.count (granted turn) = 0 then state
  else
    let next := reader.read (granted turn)
    feed update granted (turn + 1)
      (update state (next.buffer.take (reader.count (granted turn)))) next
termination_by reader.ahead.length
decreasing_by exact Reader.length_ahead_read ‹_›

/-- The digest of a file that is read in chunks. -/
def digestBy (granted : Nat → Nat) (content : Bytes) : String :=
  (feed Hasher.update granted 0 Hasher.empty (.opened content)).digest

/-- The digest of a file each read of which fills the buffer as long as there is enough to read. -/
def digestOf (content : Bytes) : String := digestBy (fun _ => chunkSize) content

/-- The text whose digest is the signature. -/
def text (digest : String) (modified : Stamp) (invocation : String) : String :=
  digest ++ ":" ++ (modified.milliseconds / 1000).text ++ ":" ++ invocation

def of (content : Bytes) (modified : Stamp) (invocation : String) : String :=
  sha256 (Bytes.ofText (text (digestOf content) modified invocation))

end Signature

namespace Files

def digest (path : String) : Effect String := return Signature.digestOf (← read path)

/-- The signature of a script as it is now. -/
def signature (script invocation : String) : Effect String := do
  let content ← read script
  return Signature.of content (← modified script) invocation

end Files

end ScriptPack
