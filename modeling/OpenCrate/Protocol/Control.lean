import OpenCrate.Crypto.Kdf
import OpenCrate.Crypto.Sign
import OpenCrate.Data.Chunks
import OpenCrate.Data.MachineInt
import OpenCrate.Format.Text
import OpenCrate.Protocol.Unknown

/-!
# Authority control documents

`control` of `oc-protocol`: a server describes itself in a **binding**, signed with the lease key that
the binding names; controllers of its roster sign **requests** to change it, and the server answers
with **receipts**. A **transfer** passes authority on to a binding of the next epoch, and is signed by
the roster of the epoch before.

All are TLV documents with a canonical form: what was read is encoded again and compared with the
bytes, the unknown optional fields left out.
-/

namespace OpenCrate.Protocol

open OpenCrate.Format OpenCrate.Crypto
open Except (refuseIf okOr)

namespace Control

/-- Layout version of the documents. -/
def version : UInt8 := 1

/-- Addresses per binding. -/
def maxUrls : ℕ := 8

/-- Address length, bytes. -/
def maxUrlLen : ℕ := 256

/-- TLS fingerprints per binding. -/
def maxPins : ℕ := 8

/-- Keys in the controller roster. -/
def maxRoster : ℕ := 16

/-- Signatures over one intent. -/
def maxSigners : ℕ := 16

/-- Maximum intent lifetime: one day. -/
def maxRequestLifetime : Int64 := 86400

/-- Rejection or termination reason, characters. -/
def maxReasonChars : ℕ := 512

/-- Whole-document size limit. -/
def maxDocumentLen : ℕ := 64 * 1024

/-- Longest organization name, as in the key directory. -/
def maxTenant : ℕ := 64

/-- A refusal of a value. -/
def bad (tag : UInt16) (len : ℕ) : FormatError := .badFieldLength tag len

/-! ### Enumerations -/

/-- Durability profile. -/
inductive Durability where
  | local_
  | mirrored
  | witnessed
  deriving DecidableEq, Repr

namespace Durability

def toU8 : Durability → UInt8
  | local_ => 0
  | mirrored => 1
  | witnessed => 2

/-- From a byte; unknown means rejection. -/
def fromU8 : UInt8 → Option Durability
  | 0 => some local_
  | 1 => some mirrored
  | 2 => some witnessed
  | _ => none

@[simp] theorem fromU8_toU8 (d : Durability) : fromU8 d.toU8 = some d := by
  cases d <;> rfl

end Durability

/-- Declared server recovery mode. -/
inductive Recovery where
  | undeclared
  | package
  | notRecoverable
  deriving DecidableEq, Repr

namespace Recovery

def toU8 : Recovery → UInt8
  | undeclared => 0
  | package => 1
  | notRecoverable => 2

/-- From a byte; unknown means rejection. -/
def fromU8 : UInt8 → Option Recovery
  | 0 => some undeclared
  | 1 => some package
  | 2 => some notRecoverable
  | _ => none

@[simp] theorem fromU8_toU8 (r : Recovery) : fromU8 r.toU8 = some r := by
  cases r <;> rfl

end Recovery

/-- Whether the server provides service. -/
inductive Status where
  | serving
  | stopped
  | archiveOnly
  | transferred
  deriving DecidableEq, Repr

namespace Status

def toU8 : Status → UInt8
  | serving => 0
  | stopped => 1
  | archiveOnly => 2
  | transferred => 3

/-- From a byte; unknown means rejection. -/
def fromU8 : UInt8 → Option Status
  | 0 => some serving
  | 1 => some stopped
  | 2 => some archiveOnly
  | 3 => some transferred
  | _ => none

@[simp] theorem fromU8_toU8 (s : Status) : fromU8 s.toU8 = some s := by
  cases s <;> rfl

end Status

/-- Operation outcome. -/
inductive Outcome where
  | committed
  | rejected
  | pendingDurability
  | idConflict
  | staleRevision
  deriving DecidableEq, Repr

namespace Outcome

def toU8 : Outcome → UInt8
  | committed => 1
  | rejected => 2
  | pendingDurability => 3
  | idConflict => 4
  | staleRevision => 5

/-- From a byte; unknown means rejection. -/
def fromU8 : UInt8 → Option Outcome
  | 1 => some committed
  | 2 => some rejected
  | 3 => some pendingDurability
  | 4 => some idConflict
  | 5 => some staleRevision
  | _ => none

@[simp] theorem fromU8_toU8 (o : Outcome) : fromU8 o.toU8 = some o := by
  cases o <;> rfl

end Outcome

/-- How to handle leases issued by the previous server. -/
inductive OldLeases where
  /-- They remain valid until they expire. -/
  | honour
  /-- They are rejected if they were issued after the transition. -/
  | rejectAfterTransition
  deriving DecidableEq, Repr

namespace OldLeases

def toU8 : OldLeases → UInt8
  | honour => 0
  | rejectAfterTransition => 1

/-- From a byte; unknown means rejection. -/
def fromU8 : UInt8 → Option OldLeases
  | 0 => some honour
  | 1 => some rejectAfterTransition
  | _ => none

@[simp] theorem fromU8_toU8 (o : OldLeases) : fromU8 o.toU8 = some o := by
  cases o <;> rfl

end OldLeases

/-! ### Values of fields -/

/-- A byte of an organization name. -/
def isTenantByte (b : UInt8) : Bool :=
  (0x61 ≤ b && b ≤ 0x7a) || (0x30 ≤ b && b ≤ 0x39) || b == 0x2e || b == 0x2d || b == 0x5f

/-- Organization name: `[a-z0-9._-]`, 1 to 64 bytes. -/
def checkTenant (tenant : String) (tag : UInt16) : Except FormatError Unit :=
  refuseIf (¬(tenant ≠ "" ∧ (utf8 tenant).length ≤ maxTenant ∧ (utf8 tenant).all isTenantByte))
    (bad tag (utf8 tenant).length)

/-- Printable ASCII without spaces. -/
def isAsciiGraphic (b : UInt8) : Bool := 0x21 ≤ b && b ≤ 0x7e

/-- Address: printable ASCII without spaces, 1 to 256 bytes. -/
def checkUrl (url : String) (tag : UInt16) : Except FormatError Unit :=
  refuseIf (¬(url ≠ "" ∧ (utf8 url).length ≤ maxUrlLen ∧ (utf8 url).all isAsciiGraphic))
    (bad tag (utf8 url).length)

/-- A reason is short and can be shown. -/
def checkReason (text : String) (tag : UInt16) : Except FormatError Unit := do
  refuseIf (maxReasonChars < text.toList.length) (bad tag (utf8 text).length)
  checkDisplay text tag

/-- One address behind those written: its length and its bytes. -/
def encodeUrl (tag : UInt16) (out : List UInt8) (url : String) : Except FormatError (List UInt8) := do
  checkUrl url tag
  let len ← okOr (UInt16.tryFrom (utf8 url).length) (bad tag (utf8 url).length)
  .ok (out ++ toLeBytes len ++ utf8 url)

/-- Addresses, one after the other. -/
def encodeUrls (urls : List String) (tag : UInt16) : Except FormatError (List UInt8) := do
  refuseIf (urls = [] ∨ maxUrls < urls.length) (bad tag urls.length)
  urls.foldlM (encodeUrl tag) []

/-- The first bytes and the rest, if there are so many. -/
def splitAtChecked (n : ℕ) (bytes : List UInt8) : Option (List UInt8 × List UInt8) :=
  if n ≤ bytes.length then some (bytes.take n, bytes.drop n) else none

/-- The first bytes are cut off if there are as many. -/
theorem splitAtChecked_eq_some_iff {n : ℕ} {bytes first rest : List UInt8} :
    splitAtChecked n bytes = some (first, rest) ↔ first.length = n ∧ bytes = first ++ rest := by
  rw [splitAtChecked]
  split_ifs with h
  · rw [Option.some.injEq, Prod.mk.injEq]
    constructor
    · rintro ⟨rfl, rfl⟩
      exact ⟨List.length_take_of_le h, (List.take_append_drop _ _).symm⟩
    · rintro ⟨rfl, rfl⟩
      exact ⟨List.take_left, List.drop_left⟩
  · refine ⟨nofun, ?_⟩
    rintro ⟨rfl, rfl⟩
    rw [List.length_append] at h
    omega

/-- The address at the front, and what stands behind it. -/
def decodeUrl (tag : UInt16) (rest : List UInt8) : Except FormatError (String × List UInt8) := do
  let (len, tail) ← okOr (splitAtChecked 2 rest) (bad tag rest.length)
  let len ← okOr (ofLeBytes? len : Option UInt16) (bad tag 2)
  let (url, tail) ← okOr (splitAtChecked len.toNat tail) (bad tag tail.length)
  let url ← okOr (fromUtf8? url) (bad tag len.toNat)
  checkUrl url tag
  .ok (url, tail)

/-- The addresses behind those read, of which there is room for some more. -/
def decodeUrlsFrom (tag : UInt16) : ℕ → List UInt8 → List String → Except FormatError (List String)
  | _, [], urls => .ok urls
  | 0, b :: rest, _ => .error (bad tag (b :: rest).length)
  | room + 1, b :: rest, urls => do
    let (url, tail) ← decodeUrl tag (b :: rest)
    refuseIf (url ∈ urls) (bad tag (utf8 url).length)
    decodeUrlsFrom tag room tail (urls ++ [url])

/-- Read addresses: at least one, no more than allowed, no repetitions. -/
def decodeUrls (bytes : List UInt8) (tag : UInt16) : Except FormatError (List String) := do
  let urls ← decodeUrlsFrom tag maxUrls bytes []
  refuseIf (urls = []) (bad tag 0)
  .ok urls

/-- The order of keys: by their bytes. -/
def keyLt (a b : Digest) : Prop := a.toList < b.toList

instance : DecidableRel keyLt := fun a b ↦ inferInstanceAs (Decidable (a.toList < b.toList))

/-- Consecutive keys, strictly ascending: one entry per key and one representation per set. -/
def encodeKeys (keys : List Digest) (max : ℕ) (tag : UInt16) : Except FormatError (List UInt8) := do
  refuseIf (max < keys.length ∨ ¬keys.IsChain keyLt) (bad tag keys.length)
  .ok (keys.flatMap List.Vector.toList)

/-- Read consecutive keys, strictly ascending. -/
def decodeKeys (bytes : List UInt8) (max : ℕ) (tag : UInt16) : Except FormatError (List Digest) := do
  let keys ← okOr (chunksExact? 32 bytes) (bad tag bytes.length)
  refuseIf (max < keys.length ∨ ¬keys.IsChain keyLt) (bad tag bytes.length)
  .ok keys

/-- Value of a field as text. -/
def text (f : Field) : Except FormatError String := okOr (fromUtf8? f.value) f.badLength

/-- Value of a field as a byte of an enumeration. -/
def enumField {α : Type} (fromU8 : UInt8 → Option α) (f : Field) : Except FormatError α := do
  let byte ← f.u8
  okOr (fromU8 byte) (bad f.tag 1)

/-- The signature before a document, and the body. -/
def splitSigned (bytes : List UInt8) : Except FormatError (Signature × List UInt8) := do
  refuseIf (maxDocumentLen < bytes.length) (bad 0 bytes.length)
  let (sig, body) ← okOr (splitAtChecked Crypto.signatureLen bytes) (bad 0 bytes.length)
  let sig ← okOr (toVector? Crypto.signatureLen sig) (bad 0 sig.length)
  .ok (sig, body)

/-- What a signature covers: the label and the body. -/
def transcript (label : Label) (body : List UInt8) : Transcript := (Transcript.new label).field body

/-- Signed document fingerprint. -/
def digest (sha : Sha2) (bytes : List UInt8) : Digest := sha.sha256 bytes

end Control

end OpenCrate.Protocol
