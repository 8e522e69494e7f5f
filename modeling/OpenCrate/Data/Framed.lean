import OpenCrate.Data.Chunks
import OpenCrate.Data.Except
import OpenCrate.Data.MachineInt

/-!
# Streams of framed items

A stream is a list of byte strings one behind the other, each after its length in four bytes. The
reader takes items as long as there are bytes, and no more than it has room for; what it accepts are
exactly the streams of the writer (`unframe_eq_ok_iff`). What is reported of a stream that is not
accepted differs from one caller to another and is a parameter.
-/

open Except (okOr)

/-- One item after its length. -/
def frame (item : List UInt8) : List UInt8 := toLeBytes (UInt32.ofNat item.length) ++ item

/-- The items of a stream, one behind the other. -/
def frames (items : List (List UInt8)) : List UInt8 := items.flatMap frame

section

variable {ε : Type} (tooLong : ℕ → ε)

/-- Write one more item. -/
def enframeStep (out item : List UInt8) : Except ε (List UInt8) := do
  let len ← okOr (UInt32.tryFrom item.length) (tooLong item.length)
  .ok (out ++ toLeBytes len ++ item)

/-- Write a stream; an item must not be longer than four bytes can say. -/
def enframe (items : List (List UInt8)) : Except ε (List UInt8) := items.foldlM (enframeStep tooLong) []

variable (full short : ℕ → ε) (cut : ℕ → ℕ → ε)

/-- Read a stream, item by item. -/
def unframe : ℕ → List UInt8 → List (List UInt8) → Except ε (List (List UInt8))
  | _, [], items => .ok items
  | 0, _ :: _, items => .error (full (items.length + 1))
  | room + 1, b :: rest, items => do
    let len : UInt32 ← okOr ((slice? (b :: rest) 0 4).bind ofLeBytes?) (short (b :: rest).length)
    let item ← okOr (slice? (b :: rest) 4 (4 + len.toNat)) (cut len.toNat ((b :: rest).drop 4).length)
    unframe room ((b :: rest).drop (4 + len.toNat)) (items ++ [item])

variable {tooLong full short cut} {items : List (List UInt8)} {bytes : List UInt8}

theorem length_frame (item : List UInt8) : (frame item).length = 4 + item.length := by
  rw [frame, List.length_append, length_toLeBytes, LeInt.width_uint32]

theorem frames_cons (item : List UInt8) (items : List (List UInt8)) :
    frames (item :: items) = frame item ++ frames items := rfl

theorem frames_eq_nil_iff : frames items = [] ↔ items = [] := by
  cases items with
  | nil => exact iff_of_true rfl rfl
  | cons item items =>
    refine iff_of_false (fun h ↦ ?_) (List.cons_ne_nil _ _)
    have hlength := congrArg List.length h
    rw [frames_cons, List.length_append, length_frame, List.length_nil] at hlength
    omega

theorem length_le_frames {item : List UInt8} (h : item ∈ items) : item.length ≤ (frames items).length := by
  induction items with
  | nil => cases h
  | cons first items ih =>
    rw [frames_cons, List.length_append, length_frame]
    rcases List.mem_cons.mp h with rfl | hrest
    · omega
    · exact (ih hrest).trans (Nat.le_add_left _ _)

theorem length_frames_le {bound : ℕ} (h : ∀ item ∈ items, item.length ≤ bound) :
    (frames items).length ≤ items.length * (4 + bound) := by
  induction items with
  | nil => exact Nat.zero_le _
  | cons item items ih =>
    obtain ⟨hitem, hitems⟩ := List.forall_mem_cons.mp h
    have hrest := ih hitems
    rw [frames_cons, List.length_append, length_frame, List.length_cons, Nat.succ_mul]
    omega

/-! ### Writing -/

theorem foldlM_enframeStep_eq_ok_iff {out : List UInt8} :
    items.foldlM (enframeStep tooLong) out = .ok bytes ↔
      (∀ item ∈ items, item.length < 2 ^ 32) ∧ bytes = out ++ frames items := by
  induction items generalizing out with
  | nil =>
    rw [Except.foldlM_nil, Except.ok.injEq, eq_comm]
    exact ⟨fun h ↦ ⟨nofun, h.trans (List.append_nil _).symm⟩, fun h ↦ h.2.trans (List.append_nil _)⟩
  | cons item items ih =>
    simp only [List.foldlM_cons, Except.bind_eq_ok_iff, enframeStep, Except.okOr_eq_ok_iff,
      UInt32.tryFrom_eq_some_iff, ih, List.forall_mem_cons]
    constructor
    · rintro ⟨_, ⟨len, hlen, hout⟩, hfits, rfl⟩
      obtain rfl := Except.ok.inj hout
      refine ⟨⟨hlen ▸ len.toNat_lt, hfits⟩, ?_⟩
      rw [frames_cons, frame, ← hlen, UInt32.ofNat_toNat, List.append_assoc, List.append_assoc,
        List.append_assoc]
    · rintro ⟨⟨hlen, hfits⟩, rfl⟩
      refine ⟨_, ⟨_, UInt32.toNat_ofNat_of_lt' hlen, rfl⟩, hfits, ?_⟩
      rw [frames_cons, frame, List.append_assoc, List.append_assoc, List.append_assoc]

/-- **What is written.** The items one behind the other, if none is too long. -/
theorem enframe_eq_ok_iff :
    enframe tooLong items = .ok bytes ↔
      (∀ item ∈ items, item.length < 2 ^ 32) ∧ bytes = frames items :=
  foldlM_enframeStep_eq_ok_iff

/-! ### Reading -/

/-- The first item of a stream. -/
theorem exists_frame_iff {item tail : List UInt8} :
    (∃ len : UInt32, (slice? bytes 0 4).bind ofLeBytes? = some len ∧
      slice? bytes 4 (4 + len.toNat) = some item ∧ bytes.drop (4 + len.toNat) = tail) ↔
      item.length < 2 ^ 32 ∧ bytes = frame item ++ tail := by
  constructor
  · rintro ⟨len, hlen, hitem, rfl⟩
    obtain ⟨head, hhead, hread⟩ := Option.bind_eq_some_iff.mp hlen
    obtain ⟨-, -, hhead⟩ := slice?_eq_some_iff.mp hhead
    obtain ⟨-, hfits, hitem⟩ := slice?_eq_some_iff.mp hitem
    rw [ofLeBytes?_eq_some_iff, ← hhead, Nat.sub_zero, List.drop_zero] at hread
    rw [Nat.add_sub_cancel_left] at hitem
    have hlength : item.length = len.toNat := by
      rw [← hitem, List.length_take, List.length_drop]
      omega
    refine ⟨hlength ▸ len.toNat_lt, ?_⟩
    rw [frame, hlength, UInt32.ofNat_toNat, ← hread, ← hitem, List.append_assoc, ← List.drop_drop,
      List.take_append_drop, List.take_append_drop]
  · rintro ⟨hlength, rfl⟩
    have hnat : (UInt32.ofNat item.length).toNat = item.length := UInt32.toNat_ofNat_of_lt' hlength
    have hfour : (toLeBytes (UInt32.ofNat item.length)).length = 4 := length_toLeBytes _
    refine ⟨UInt32.ofNat item.length, ?_, ?_, ?_⟩
    · have hhead : slice? (frame item ++ tail) 0 4 = some (toLeBytes (UInt32.ofNat item.length)) := by
        refine slice?_eq_some_iff.mpr ⟨Nat.zero_le _, ?_, ?_⟩
        · rw [List.length_append, length_frame]
          omega
        · rw [frame, List.append_assoc, List.drop_zero, Nat.sub_zero, List.take_left' hfour]
      rw [hhead, Option.bind_some, ofLeBytes?_toLeBytes]
    · have hitem := slice?_append (toLeBytes (UInt32.ofNat item.length)) item tail
      rw [hfour] at hitem
      rw [hnat, frame, List.append_assoc]
      exact hitem
    · rw [hnat]
      exact List.drop_left' (length_frame item)

/-- **What is read.** The streams that are written, if there is room for their items. -/
theorem unframe_eq_ok_iff {room : ℕ} {seen : List (List UInt8)} :
    unframe full short cut room bytes seen = .ok items ↔
      ∃ more, items = seen ++ more ∧ more.length ≤ room ∧ (∀ item ∈ more, item.length < 2 ^ 32) ∧
        bytes = frames more := by
  -- the loop ends with the bytes, whatever room is left
  have hnil : ∀ {room : ℕ} {seen : List (List UInt8)},
      unframe full short cut room [] seen = .ok items ↔
        ∃ more, items = seen ++ more ∧ more.length ≤ room ∧ (∀ item ∈ more, item.length < 2 ^ 32) ∧
          [] = frames more := by
    intro room seen
    have hok : unframe full short cut room [] seen = .ok seen := by cases room <;> rfl
    rw [hok, Except.ok.injEq]
    constructor
    · rintro rfl
      exact ⟨[], (List.append_nil _).symm, Nat.zero_le _, nofun, rfl⟩
    · rintro ⟨more, rfl, -, -, hbytes⟩
      rw [frames_eq_nil_iff.mp hbytes.symm, List.append_nil]
  induction room generalizing bytes seen with
  | zero =>
    rcases bytes with - | ⟨b, rest⟩
    · exact hnil
    · refine ⟨nofun, ?_⟩
      rintro ⟨more, -, hlen, -, hbytes⟩
      rw [List.length_eq_zero_iff.mp (Nat.le_zero.mp hlen)] at hbytes
      cases hbytes
  | succ room ih =>
    rcases bytes with - | ⟨b, rest⟩
    · exact hnil
    · simp only [unframe, Except.bind_eq_ok_iff, Except.okOr_eq_ok_iff, ih]
      constructor
      · rintro ⟨len, hlen, item, hitem, more, rfl, hroom, hfits, htail⟩
        obtain ⟨hlength, hbytes⟩ := exists_frame_iff.mp ⟨len, hlen, hitem, rfl⟩
        refine ⟨item :: more, by rw [List.append_assoc]; rfl, Nat.succ_le_succ hroom,
          List.forall_mem_cons.mpr ⟨hlength, hfits⟩, ?_⟩
        rw [hbytes, frames_cons, htail]
      · rintro ⟨more, rfl, hroom, hfits, hbytes⟩
        rcases more with - | ⟨item, more⟩
        · cases hbytes
        · obtain ⟨hlength, hfits⟩ := List.forall_mem_cons.mp hfits
          obtain ⟨len, hlen, hitem, htail⟩ := exists_frame_iff.mpr ⟨hlength, hbytes⟩
          exact ⟨len, hlen, item, hitem, more, by rw [List.append_assoc]; rfl,
            Nat.le_of_succ_le_succ hroom, hfits, htail⟩

end
