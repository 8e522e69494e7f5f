import OpenCrate.Format.Header

/-!
# The strength of a file

`Strength` of `oc-format`: what protects the content key against someone who has the file. The source
reads it off the author slot, because that slot yields both shares by itself.

Above it stands what the number is for. A **route** is a list of slots that yield both shares, alone or
jointly; whoever takes a route has to break every slot of it, so that a route is as strong as its
strongest slot, and a file as strong as its weakest route (`isLeast_fileStrength`).
-/

namespace OpenCrate.Format

open Crypto

/-- File protection strength. -/
inductive Strength where
  /-- Neither post-quantum protection nor a requirement on hardware. -/
  | classical
  /-- X-Wing: software post-quantum hybrid. -/
  | postQuantum
  /-- MLKEM768-P256: post-quantum hybrid with its classical half in the hardware. -/
  | postQuantumHardware
  deriving DecidableEq, Repr

namespace Strength

/-- The place in the order. It does not follow the numbers of the mechanisms. -/
def rank : Strength → ℕ
  | classical => 0
  | postQuantum => 1
  | postQuantumHardware => 2

theorem rank_injective : Function.Injective rank := by
  intro s s' h
  cases s <;> cases s' <;> first | rfl | cases h

instance instLinearOrder : LinearOrder Strength := LinearOrder.lift' rank rank_injective

/-- Strength of one slot, by mechanism. -/
def ofKem (kem : UInt8) : Strength :=
  match kem with
  | 5 => postQuantumHardware
  | 4 => postQuantum
  | _ => classical

end Strength

/-- The strength of a slot. -/
def KnownSlot.strength (slot : KnownSlot) : Strength := .ofKem slot.kem.toU8

/-- The strength of an author slot. -/
def KeySlot.authorStrength? : KeySlot → Option Strength
  | .known slot => if slot.kind = .authorDevice then some slot.strength else none
  | .unknown _ _ => none

/-- File strength: the strongest author slot, and without one there is nothing to require. -/
def Header.fileStrength (header : Header) : Strength :=
  (header.keySlots.filterMap KeySlot.authorStrength?).max?.getD .classical

/-! ### Routes to the content key -/

/-- The shares from which the wrapping key is derived. -/
inductive Share where
  /-- The share of the server. -/
  | a
  /-- The share of the recipient. -/
  | b
  deriving DecidableEq

/-- Whether a slot of the kind yields the share to its holder. -/
def SlotKind.yields : SlotKind → Share → Bool
  | .server, .a => true
  | .recipientIdentity, .b => true
  -- the slot of a claim code holds the commitment to the share, and the code yields the share
  | .recipientClaim, .b => true
  | .authorDevice, _ => true
  | _, _ => false

/-- Slots of the header that yield both shares. -/
structure Header.Route (header : Header) (route : List KnownSlot) : Prop where
  mem_slots : ∀ slot ∈ route, .known slot ∈ header.keySlots
  yields : ∀ share, ∃ slot ∈ route, slot.kind.yields share = true

/-- A route is as strong as its strongest slot. -/
def routeStrength (route : List KnownSlot) : Strength :=
  (route.map KnownSlot.strength).max?.getD .classical

theorem le_routeStrength {route : List KnownSlot} {slot : KnownSlot} (h : slot ∈ route) :
    slot.strength ≤ routeStrength route := by
  rcases hmax : (route.map KnownSlot.strength).max? with - | s
  · rw [List.max?_eq_none_iff, List.map_eq_nil_iff] at hmax
    exact absurd h (hmax ▸ List.not_mem_nil)
  · rw [routeStrength, hmax, Option.getD_some]
    exact (List.max?_eq_some_iff.mp hmax).2 _ (List.mem_map_of_mem h)

/-- With one author slot the strength of the file is that of the slot. -/
theorem fileStrength_of_single {header : Header} {slots : List KeySlot} {author : KnownSlot}
    (hslots : header.keySlots = slots ++ [.known author]) (hkind : author.kind = .authorDevice)
    (hothers : ∀ slot, .known slot ∈ slots → slot.kind ≠ .authorDevice) :
    header.fileStrength = author.strength := by
  have hnone : slots.filterMap KeySlot.authorStrength? = [] := by
    rw [List.filterMap_eq_nil_iff]
    intro slot hslot
    cases slot with
    | known slot => exact if_neg (hothers slot hslot)
    | unknown kind raw => rfl
  have hauthor : KeySlot.authorStrength? (.known author) = some author.strength := if_pos hkind
  rw [Header.fileStrength, hslots, List.filterMap_append, hnone, List.nil_append,
    List.filterMap_cons, hauthor]
  rfl

/-- **The strength of a file is that of its weakest route**, if there is one author slot and no
recipient slot is weaker. -/
theorem isLeast_fileStrength {header : Header} {slots : List KeySlot} {author : KnownSlot}
    (hslots : header.keySlots = slots ++ [.known author]) (hkind : author.kind = .authorDevice)
    (hothers : ∀ slot, .known slot ∈ slots → slot.kind ≠ .authorDevice)
    (hweaker : ∀ slot, .known slot ∈ slots → slot.kind.yields .b = true →
      author.strength ≤ slot.strength) :
    IsLeast {s | ∃ route, header.Route route ∧ routeStrength route = s} header.fileStrength := by
  rw [fileStrength_of_single hslots hkind hothers]
  refine ⟨⟨[author], ⟨?_, ?_⟩, rfl⟩, ?_⟩
  · intro slot hslot
    obtain rfl := List.mem_singleton.mp hslot
    rw [hslots]
    exact List.mem_append_right _ (List.mem_singleton_self _)
  · intro share
    refine ⟨author, List.mem_singleton_self _, ?_⟩
    rw [hkind]
    rfl
  · rintro s ⟨route, hroute, rfl⟩
    -- every route passes through a slot that yields the share of the recipient
    obtain ⟨slot, hslot, hyields⟩ := hroute.yields .b
    refine le_trans ?_ (le_routeStrength hslot)
    have hmem := hroute.mem_slots slot hslot
    rw [hslots, List.mem_append, List.mem_singleton] at hmem
    rcases hmem with hmem | hmem
    · exact hweaker slot hmem hyields
    · exact (KeySlot.known.inj hmem) ▸ le_rfl

end OpenCrate.Format
