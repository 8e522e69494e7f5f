import Mathlib.Data.List.Induction
import Mathlib.Data.List.Nodup
import Mathlib.Order.Nat
import Mathlib.Tactic.Common

/-!
# Text without a declared encoding

`encoding` of `oc-format`: Cyrillic text of one byte a letter, under one of three tables. The encoding is guessed
by counting the bytes that each table reads as lowercase Cyrillic letters; the first of the best tables is taken,
if it reads three quarters of the high bytes so.

What the guess is worth is said for every text (`guess_exact`): which table is taken, and when none is; that
lowercase text is read by the table it was written with, except for the texts in CP866 that an earlier table reads
as letters too, which are named; and that no byte is lost under any table.
-/

namespace OpenCrate.Format

/-! ### The first maximum -/

section FirstMax

variable {α : Type} (score : α → ℕ)

/-- One step of the search: a candidate replaces the best one if it scores more. -/
def firstMaxStep (best : Option (α × ℕ)) (a : α) : Option (α × ℕ) :=
  if best.all (fun previous ↦ previous.2 < score a) then some (a, score a) else best

/-- The first of the best candidates, with its score. -/
def firstMax (candidates : List α) : Option (α × ℕ) := candidates.foldl (firstMaxStep score) none

variable {score} {candidates : List α} {a : α} {s : ℕ}

theorem firstMax_concat (candidates : List α) (a : α) :
    firstMax score (candidates ++ [a]) = firstMaxStep score (firstMax score candidates) a := by
  rw [firstMax, List.foldl_append]
  rfl

theorem firstMaxStep_of_lt {best : Option (α × ℕ)} (h : ∀ previous ∈ best, previous.2 < score a) :
    firstMaxStep score best a = some (a, score a) := by
  refine if_pos ?_
  cases best with
  | none => rfl
  | some previous => exact decide_eq_true (h previous rfl)

theorem firstMaxStep_of_le (h : score a ≤ s) {b : α} :
    firstMaxStep score (some (b, s)) a = some (b, s) := by
  refine if_neg ?_
  rw [Option.all_some, decide_eq_true_eq]
  exact not_lt.mpr h

/-- The winner is the first candidate with the highest score. -/
theorem exists_of_firstMax (h : firstMax score candidates = some (a, s)) :
    ∃ before after, candidates = before ++ a :: after ∧ s = score a ∧
      (∀ b ∈ before, score b < score a) ∧ ∀ b ∈ after, score b ≤ score a := by
  -- the search reads from the left, so the induction adds a candidate on the right
  induction candidates using List.reverseRecOn generalizing a s with
  | nil => cases h
  | append_singleton l last ih =>
    rw [firstMax_concat] at h
    cases hbest : firstMax score l with
    | none =>
      have hnil : l = [] := by
        cases l using List.reverseRecOn with
        | nil => rfl
        | append_singleton l b =>
          rw [firstMax_concat, firstMaxStep] at hbest
          split_ifs at hbest with hall
          rw [hbest] at hall
          exact absurd rfl hall
      rw [hbest, firstMaxStep_of_lt fun _ hp ↦ absurd hp (Option.not_mem_none _)] at h
      obtain ⟨rfl, rfl⟩ := Prod.mk.inj (Option.some_inj.mp h)
      exact ⟨[], [], congrArg (· ++ [last]) hnil, rfl, nofun, nofun⟩
    | some best =>
      obtain ⟨b, sb⟩ := best
      obtain ⟨before, after, rfl, rfl, hbefore, hafter⟩ := ih hbest
      rw [hbest] at h
      rcases lt_or_ge (score b) (score last) with hlt | hle
      · rw [firstMaxStep_of_lt fun previous hp ↦ by rw [← Option.some_inj.mp hp]; exact hlt] at h
        obtain ⟨rfl, rfl⟩ := Prod.mk.inj (Option.some_inj.mp h)
        refine ⟨before ++ b :: after, [], rfl, rfl, fun x hx ↦ ?_, nofun⟩
        rcases List.mem_append.mp hx with hx | hx
        · exact (hbefore x hx).trans hlt
        · rcases List.mem_cons.mp hx with rfl | hx
          · exact hlt
          · exact (hafter x hx).trans_lt hlt
      · rw [firstMaxStep_of_le hle] at h
        obtain ⟨rfl, rfl⟩ := Prod.mk.inj (Option.some_inj.mp h)
        refine ⟨before, after ++ [last], List.append_assoc .., rfl, hbefore, fun x hx ↦ ?_⟩
        rcases List.mem_append.mp hx with hx | hx
        · exact hafter x hx
        · rw [List.mem_singleton.mp hx]
          exact hle

/-- **What is taken** scores more than what is before it, and no less than what is behind it. -/
theorem firstMax_eq_some_iff :
    firstMax score candidates = some (a, s) ↔
      ∃ before after, candidates = before ++ a :: after ∧ s = score a ∧
        (∀ b ∈ before, score b < score a) ∧ ∀ b ∈ after, score b ≤ score a := by
  refine ⟨exists_of_firstMax, fun h ↦ ?_⟩
  obtain ⟨before, after, rfl, rfl, hbefore, hafter⟩ := h
  have htaken : firstMaxStep score (firstMax score before) a = some (a, score a) := by
    refine firstMaxStep_of_lt fun best hbest ↦ ?_
    obtain ⟨b, sb⟩ := best
    obtain ⟨first, rest, rfl, rfl, -⟩ := exists_of_firstMax hbest
    exact hbefore b (List.mem_append_right _ List.mem_cons_self)
  have hkept : ∀ l : List α, (∀ b ∈ l, score b ≤ score a) →
      l.foldl (firstMaxStep score) (some (a, score a)) = some (a, score a) := by
    intro l hl
    induction l with
    | nil => rfl
    | cons b l ih =>
      rw [List.foldl_cons, firstMaxStep_of_le (hl b List.mem_cons_self)]
      exact ih fun x hx ↦ hl x (List.mem_cons_of_mem _ hx)
  rw [firstMax, List.foldl_append, List.foldl_cons]
  exact (congrArg (List.foldl _ · after) htaken).trans (hkept after hafter)

end FirstMax

/-! ### The source -/

/-- The encoding in which the bytes could be read. -/
inductive Encoding
  | cp1251
  | koi8R
  | cp866
  deriving DecidableEq

namespace Encoding

/-- The upper half of CP1251. -/
def cp1251Table : List UInt16 :=
  [0x0402, 0x0403, 0x201a, 0x0453, 0x201e, 0x2026, 0x2020, 0x2021, 0x20ac, 0x2030, 0x0409, 0x2039,
   0x040a, 0x040c, 0x040b, 0x040f, 0x0452, 0x2018, 0x2019, 0x201c, 0x201d, 0x2022, 0x2013, 0x2014,
   0x0098, 0x2122, 0x0459, 0x203a, 0x045a, 0x045c, 0x045b, 0x045f, 0x00a0, 0x040e, 0x045e, 0x0408,
   0x00a4, 0x0490, 0x00a6, 0x00a7, 0x0401, 0x00a9, 0x0404, 0x00ab, 0x00ac, 0x00ad, 0x00ae, 0x0407,
   0x00b0, 0x00b1, 0x0406, 0x0456, 0x0491, 0x00b5, 0x00b6, 0x00b7, 0x0451, 0x2116, 0x0454, 0x00bb,
   0x0458, 0x0405, 0x0455, 0x0457, 0x0410, 0x0411, 0x0412, 0x0413, 0x0414, 0x0415, 0x0416, 0x0417,
   0x0418, 0x0419, 0x041a, 0x041b, 0x041c, 0x041d, 0x041e, 0x041f, 0x0420, 0x0421, 0x0422, 0x0423,
   0x0424, 0x0425, 0x0426, 0x0427, 0x0428, 0x0429, 0x042a, 0x042b, 0x042c, 0x042d, 0x042e, 0x042f,
   0x0430, 0x0431, 0x0432, 0x0433, 0x0434, 0x0435, 0x0436, 0x0437, 0x0438, 0x0439, 0x043a, 0x043b,
   0x043c, 0x043d, 0x043e, 0x043f, 0x0440, 0x0441, 0x0442, 0x0443, 0x0444, 0x0445, 0x0446, 0x0447,
   0x0448, 0x0449, 0x044a, 0x044b, 0x044c, 0x044d, 0x044e, 0x044f]

/-- The upper half of KOI8-R. -/
def koi8RTable : List UInt16 :=
  [0x2500, 0x2502, 0x250c, 0x2510, 0x2514, 0x2518, 0x251c, 0x2524, 0x252c, 0x2534, 0x253c, 0x2580,
   0x2584, 0x2588, 0x258c, 0x2590, 0x2591, 0x2592, 0x2593, 0x2320, 0x25a0, 0x2219, 0x221a, 0x2248,
   0x2264, 0x2265, 0x00a0, 0x2321, 0x00b0, 0x00b2, 0x00b7, 0x00f7, 0x2550, 0x2551, 0x2552, 0x0451,
   0x2553, 0x2554, 0x2555, 0x2556, 0x2557, 0x2558, 0x2559, 0x255a, 0x255b, 0x255c, 0x255d, 0x255e,
   0x255f, 0x2560, 0x2561, 0x0401, 0x2562, 0x2563, 0x2564, 0x2565, 0x2566, 0x2567, 0x2568, 0x2569,
   0x256a, 0x256b, 0x256c, 0x00a9, 0x044e, 0x0430, 0x0431, 0x0446, 0x0434, 0x0435, 0x0444, 0x0433,
   0x0445, 0x0438, 0x0439, 0x043a, 0x043b, 0x043c, 0x043d, 0x043e, 0x043f, 0x044f, 0x0440, 0x0441,
   0x0442, 0x0443, 0x0436, 0x0432, 0x044c, 0x044b, 0x0437, 0x0448, 0x044d, 0x0449, 0x0447, 0x044a,
   0x042e, 0x0410, 0x0411, 0x0426, 0x0414, 0x0415, 0x0424, 0x0413, 0x0425, 0x0418, 0x0419, 0x041a,
   0x041b, 0x041c, 0x041d, 0x041e, 0x041f, 0x042f, 0x0420, 0x0421, 0x0422, 0x0423, 0x0416, 0x0412,
   0x042c, 0x042b, 0x0417, 0x0428, 0x042d, 0x0429, 0x0427, 0x042a]

/-- The upper half of CP866. -/
def cp866Table : List UInt16 :=
  [0x0410, 0x0411, 0x0412, 0x0413, 0x0414, 0x0415, 0x0416, 0x0417, 0x0418, 0x0419, 0x041a, 0x041b,
   0x041c, 0x041d, 0x041e, 0x041f, 0x0420, 0x0421, 0x0422, 0x0423, 0x0424, 0x0425, 0x0426, 0x0427,
   0x0428, 0x0429, 0x042a, 0x042b, 0x042c, 0x042d, 0x042e, 0x042f, 0x0430, 0x0431, 0x0432, 0x0433,
   0x0434, 0x0435, 0x0436, 0x0437, 0x0438, 0x0439, 0x043a, 0x043b, 0x043c, 0x043d, 0x043e, 0x043f,
   0x2591, 0x2592, 0x2593, 0x2502, 0x2524, 0x2561, 0x2562, 0x2556, 0x2555, 0x2563, 0x2551, 0x2557,
   0x255d, 0x255c, 0x255b, 0x2510, 0x2514, 0x2534, 0x252c, 0x251c, 0x2500, 0x253c, 0x255e, 0x255f,
   0x255a, 0x2554, 0x2569, 0x2566, 0x2560, 0x2550, 0x256c, 0x2567, 0x2568, 0x2564, 0x2565, 0x2559,
   0x2558, 0x2552, 0x2553, 0x256b, 0x256a, 0x2518, 0x250c, 0x2588, 0x2584, 0x258c, 0x2590, 0x2580,
   0x0440, 0x0441, 0x0442, 0x0443, 0x0444, 0x0445, 0x0446, 0x0447, 0x0448, 0x0449, 0x044a, 0x044b,
   0x044c, 0x044d, 0x044e, 0x044f, 0x0401, 0x0451, 0x0404, 0x0454, 0x0407, 0x0457, 0x040e, 0x045e,
   0x00b0, 0x2219, 0x00b7, 0x221a, 0x2116, 0x00a4, 0x25a0, 0x00a0]

def table : Encoding → List UInt16
  | cp1251 => cp1251Table
  | koi8R => koi8RTable
  | cp866 => cp866Table

/-- The character of a code, if it has one. -/
def fromU32 (code : UInt32) : Option Char := if h : code.isValidChar then some ⟨code, h⟩ else none

/-- Decode one byte. -/
def charOf (e : Encoding) (byte : UInt8) : Char :=
  if byte < 0x80 then Char.ofNat byte.toNat
  else (fromU32 (e.table.getD (byte.toNat - 0x80) byte.toUInt16).toUInt32).getD '\uFFFD'

/-- Decode all bytes. -/
def decode (e : Encoding) (bytes : List UInt8) : List Char := bytes.map e.charOf

/-- All candidate encodings. -/
def all : List Encoding := [cp1251, koi8R, cp866]

/-- How confidently a candidate must win to be accepted, in quarters. -/
def confident : ℕ := 3

/-- Whether this is a lowercase Cyrillic letter. -/
def isCyrillicLowercase (c : Char) : Bool := ('\u0430' ≤ c && c ≤ '\u044F') || c == '\u0451'

/-- The bytes that ASCII does not have. -/
def high (bytes : List UInt8) : List UInt8 := bytes.filter fun byte ↦ 0x80 ≤ byte

/-- How many of them a table reads as lowercase letters. -/
def score (bytes : List UInt8) (candidate : Encoding) : ℕ :=
  ((high bytes).filter fun byte ↦ isCyrillicLowercase (candidate.charOf byte)).length

/-- Guess text encoding. -/
def guess (bytes : List UInt8) : Option Encoding := do
  if (high bytes).length < 8 then none
  else
    let (winner, score) ← firstMax (score bytes) all
    if (high bytes).length * confident ≤ score * 4 then some winner else none

/-! ### What the tables read -/

/-- What is checked for all bytes holds of a byte. -/
theorem forall_byte {p : UInt8 → Bool} (h : (List.range 256).all (fun n ↦ p (UInt8.ofNat n)) = true)
    (byte : UInt8) : p byte = true := by
  have hbyte := List.all_eq_true.mp h byte.toNat (List.mem_range.mpr byte.toNat_lt)
  rwa [UInt8.ofNat_toNat] at hbyte

/-- The bytes of the lowercase letters, in each table. -/
def LowercaseByte (byte : UInt8) : Encoding → Prop
  | cp1251 => 0xe0 ≤ byte ∨ byte = 0xb8
  | koi8R => 0xc0 ≤ byte ∧ byte < 0xe0 ∨ byte = 0xa3
  | cp866 => 0xa0 ≤ byte ∧ byte < 0xb0 ∨ 0xe0 ≤ byte ∧ byte < 0xf0 ∨ byte = 0xf1

instance (byte : UInt8) : (e : Encoding) → Decidable (LowercaseByte byte e)
  | cp1251 => inferInstanceAs (Decidable (_ ∨ _))
  | koi8R => inferInstanceAs (Decidable (_ ∨ _))
  | cp866 => inferInstanceAs (Decidable (_ ∨ _))

theorem isCyrillicLowercase_charOf (e : Encoding) (byte : UInt8) :
    isCyrillicLowercase (e.charOf byte) = decide (LowercaseByte byte e) := by
  refine beq_iff_eq.mp (forall_byte (p := fun b ↦ isCyrillicLowercase (e.charOf b) == decide (LowercaseByte b e))
    ?_ byte)
  cases e
  all_goals decide +kernel

/-- The tables that are confused most put lowercase letters on different bytes. -/
theorem not_cp1251_of_koi8R (byte : UInt8) : LowercaseByte byte koi8R → ¬LowercaseByte byte cp1251 :=
  of_decide_eq_true (forall_byte (p := fun b ↦ LowercaseByte b koi8R → ¬LowercaseByte b cp1251)
    (by decide +kernel) byte)

theorem cp1251_iff_of_cp866 (byte : UInt8) :
    LowercaseByte byte cp866 → (LowercaseByte byte cp1251 ↔ 0xe0 ≤ byte) :=
  of_decide_eq_true (forall_byte (p := fun b ↦ LowercaseByte b cp866 → (LowercaseByte b cp1251 ↔ 0xe0 ≤ b))
    (by decide +kernel) byte)

theorem koi8R_iff_of_cp866 (byte : UInt8) :
    LowercaseByte byte cp866 → (LowercaseByte byte koi8R ↔ byte = 0xa3) :=
  of_decide_eq_true (forall_byte (p := fun b ↦ LowercaseByte b cp866 → (LowercaseByte b koi8R ↔ b = 0xa3))
    (by decide +kernel) byte)

theorem length_table (e : Encoding) : e.table.length = 128 := by
  cases e
  all_goals rfl

/-- No code occurs twice in a table. -/
theorem nodup_table (e : Encoding) : (e.table.map UInt16.toNat).Nodup := by
  cases e
  all_goals decide +kernel

/-- The codes of a table are characters, and not of ASCII. -/
theorem mem_table {code : UInt16} (e : Encoding) (h : code ∈ e.table) :
    0x80 ≤ code.toNat ∧ code.toNat < 0xd800 := by
  have hall : e.table.all (fun code ↦ 0x80 ≤ code.toNat && code.toNat < 0xd800) = true := by
    cases e
    all_goals decide +kernel
  have hcode := List.all_eq_true.mp hall code h
  rwa [Bool.and_eq_true, decide_eq_true_eq, decide_eq_true_eq] at hcode

/-- What is read at a low byte. -/
theorem toNat_charOf_of_lt {byte : UInt8} (e : Encoding) (h : byte.toNat < 128) :
    (e.charOf byte).toNat = byte.toNat := by
  have hvalid : byte.toNat.isValidChar := Or.inl (by omega)
  rw [charOf, if_pos (show byte < 0x80 from UInt8.lt_iff_toNat_lt.mpr h), Char.ofNat, dif_pos hvalid]
  rfl

/-- What is read at a high byte. -/
theorem toNat_charOf_of_le {byte : UInt8} (e : Encoding) (h : 128 ≤ byte.toNat) :
    (e.table.map UInt16.toNat)[byte.toNat - 128]? = some (e.charOf byte).toNat := by
  have hindex : byte.toNat - 128 < e.table.length := by
    have hlt := byte.toNat_lt
    rw [length_table]
    omega
  have hget := List.getElem?_eq_getElem hindex
  have hrange := e.mem_table (List.getElem_mem hindex)
  generalize e.table[byte.toNat - 128] = code at hget hrange
  have hvalid : code.toUInt32.isValidChar := by
    refine Or.inl ?_
    show code.toUInt32.toNat < _
    rw [UInt16.toNat_toUInt32]
    omega
  have hhigh : ¬byte < 0x80 := fun hlow ↦ absurd (UInt8.lt_iff_toNat_lt.mp hlow) (not_lt.mpr h)
  rw [charOf, if_neg hhigh, List.getD_eq_getElem?_getD, show (0x80 : ℕ) = 128 from rfl, hget, Option.getD_some,
    fromU32, dif_pos hvalid, List.getElem?_map, hget]
  exact congrArg some (UInt16.toNat_toUInt32 code).symm

/-- No two bytes have one character. -/
theorem charOf_injective (e : Encoding) : Function.Injective e.charOf := by
  -- the upper half of a table has no ASCII in it
  have hrange : ∀ byte : UInt8, 128 ≤ byte.toNat → 128 ≤ (e.charOf byte).toNat := by
    intro byte h
    have hget := e.toNat_charOf_of_le h
    rw [List.getElem?_map, Option.map_eq_some_iff] at hget
    obtain ⟨code, hcode, heq⟩ := hget
    rw [← heq]
    exact (e.mem_table (List.mem_of_getElem? hcode)).1
  intro a b h
  have hcode := congrArg Char.toNat h
  rcases lt_or_ge a.toNat 128 with ha | ha
  · rw [e.toNat_charOf_of_lt ha] at hcode
    rcases lt_or_ge b.toNat 128 with hb | hb
    · rw [e.toNat_charOf_of_lt hb] at hcode
      exact UInt8.toNat_inj.mp hcode
    · have := hrange b hb
      omega
  · rcases lt_or_ge b.toNat 128 with hb | hb
    · rw [e.toNat_charOf_of_lt hb] at hcode
      have := hrange a ha
      omega
    · have hlt := a.toNat_lt
      have hindex : a.toNat - 128 < (e.table.map UInt16.toNat).length := by
        rw [List.length_map, length_table]
        omega
      have hequal := (List.getElem?_inj hindex e.nodup_table).mp
        ((e.toNat_charOf_of_le ha).trans ((congrArg some hcode).trans (e.toNat_charOf_of_le hb).symm))
      exact UInt8.toNat_inj.mp (by omega)

/-- No text is lost. -/
theorem decode_injective (e : Encoding) : Function.Injective e.decode :=
  List.map_injective_iff.mpr e.charOf_injective

/-! ### What the guess is worth -/

section Guess

variable {bytes : List UInt8} {e e' : Encoding}

/-- The score of an encoding counts the high bytes that it reads as lowercase letters. -/
theorem score_eq (bytes : List UInt8) (e : Encoding) :
    score bytes e = (high bytes).countP fun byte ↦ LowercaseByte byte e := by
  rw [score, List.countP_eq_length_filter]
  simp only [isCyrillicLowercase_charOf]

theorem score_le (bytes : List UInt8) (e : Encoding) : score bytes e ≤ (high bytes).length :=
  List.length_filter_le _ _

/-- A table reads all of the high bytes as letters. -/
theorem score_eq_length_iff :
    score bytes e = (high bytes).length ↔ ∀ byte ∈ high bytes, LowercaseByte byte e := by
  rw [score_eq, List.countP_eq_length]
  simp only [decide_eq_true_eq]

/-- Every encoding is a candidate. -/
theorem mem_all (e : Encoding) : e ∈ all := by
  cases e
  all_goals decide

/-- A table is taken for enough high bytes, most of which it reads as letters, if it is the first that reads so
many of them. -/
theorem guess_eq_some_iff :
    guess bytes = some e ↔ 8 ≤ (high bytes).length ∧ (high bytes).length * confident ≤ score bytes e * 4 ∧
      ∃ before after, all = before ++ e :: after ∧ (∀ b ∈ before, score bytes b < score bytes e) ∧
        ∀ b ∈ after, score bytes b ≤ score bytes e := by
  rw [guess]
  split_ifs with hshort
  · constructor
    · intro h
      cases h
    · intro h
      exact absurd hshort (not_lt.mpr h.1)
  · simp only [Option.bind_eq_bind, Option.bind_eq_some_iff, Prod.exists, firstMax_eq_some_iff]
    constructor
    · intro h
      obtain ⟨winner, s, ⟨before, after, hall, rfl, hbefore, hafter⟩, h⟩ := h
      split_ifs at h with hconfident
      obtain rfl := Option.some_inj.mp h
      exact ⟨not_lt.mp hshort, hconfident, before, after, hall, hbefore, hafter⟩
    · intro h
      obtain ⟨-, hconfident, before, after, hall, hbefore, hafter⟩ := h
      exact ⟨e, _, ⟨before, after, hall, rfl, hbefore, hafter⟩, if_pos hconfident⟩

/-- There are candidates, so one of them is the best. -/
theorem firstMax_all_ne_none : firstMax (score bytes) all ≠ none := by
  rw [show all = [cp1251, koi8R] ++ [cp866] from rfl, firstMax_concat, firstMaxStep]
  split_ifs with hbest
  · exact nofun
  · intro h
    rw [h] at hbest
    exact hbest rfl

/-- No table is taken where there are few high bytes, or none reads enough of them as letters. -/
theorem guess_eq_none_iff :
    guess bytes = none ↔
      (high bytes).length < 8 ∨ ∀ e, score bytes e * 4 < (high bytes).length * confident := by
  rw [guess]
  split_ifs with hshort
  · exact iff_of_true rfl (Or.inl hshort)
  · rw [or_iff_right hshort]
    cases hbest : firstMax (score bytes) all with
    | none =>
      exact absurd hbest firstMax_all_ne_none
    | some best =>
      obtain ⟨winner, s⟩ := best
      obtain ⟨before, after, hall, rfl, hbefore, hafter⟩ := exists_of_firstMax hbest
      have hle : ∀ e, score bytes e ≤ score bytes winner := by
        intro e
        have hmem := mem_all e
        rw [hall] at hmem
        rcases List.mem_append.mp hmem with hmem | hmem
        · exact (hbefore e hmem).le
        · rcases List.mem_cons.mp hmem with rfl | hmem
          · exact le_rfl
          · exact hafter e hmem
      show (if _ then some winner else none) = none ↔ _
      split_ifs with hconfident
      · refine iff_of_false nofun fun h ↦ ?_
        exact absurd (h winner) (not_lt.mpr hconfident)
      · refine iff_of_true rfl fun e ↦ ?_
        have := hle e
        omega

/-- A table that reads all of the high bytes as letters is taken before those behind it. -/
theorem guess_of_all {before after : List Encoding} (hall : all = before ++ e :: after)
    (hhigh : 8 ≤ (high bytes).length) (hread : ∀ byte ∈ high bytes, LowercaseByte byte e)
    (hbefore : ∀ b ∈ before, ∃ byte ∈ high bytes, ¬LowercaseByte byte b) : guess bytes = some e := by
  have hscore := score_eq_length_iff.mpr hread
  refine guess_eq_some_iff.mpr ⟨hhigh, ?_, before, after, hall, fun b hb ↦ ?_, fun b _ ↦ ?_⟩
  · rw [hscore]
    exact Nat.mul_le_mul_left _ (by decide)
  · obtain ⟨byte, hbyte, hnot⟩ := hbefore b hb
    rw [hscore]
    refine (score_le bytes b).lt_of_ne fun heq ↦ ?_
    exact hnot (score_eq_length_iff.mp heq byte hbyte)
  · rw [hscore]
    exact score_le bytes b

/-- **Lowercase text is recognised**, except for the texts in CP866 that an earlier table reads as letters. -/
theorem guess_of_lowercase (hhigh : 8 ≤ (high bytes).length)
    (hread : ∀ byte ∈ high bytes, isCyrillicLowercase (e.charOf byte) = true) :
    guess bytes = some e ∨ e = cp866 ∧
      ((∀ byte ∈ high bytes, 0xe0 ≤ byte) ∧ guess bytes = some cp1251 ∨
        (∀ byte ∈ high bytes, byte = 0xa3) ∧ guess bytes = some koi8R) := by
  have hread' : ∀ byte ∈ high bytes, LowercaseByte byte e := by
    intro byte hbyte
    have := hread byte hbyte
    rwa [isCyrillicLowercase_charOf, decide_eq_true_eq] at this
  obtain ⟨some_, hsome⟩ : ∃ byte, byte ∈ high bytes :=
    List.exists_mem_of_ne_nil _ (List.ne_nil_of_length_pos (by omega))
  cases e with
  | cp1251 => exact Or.inl (guess_of_all (show all = [] ++ cp1251 :: _ from rfl) hhigh hread' nofun)
  | koi8R =>
    refine Or.inl (guess_of_all (show all = [cp1251] ++ koi8R :: _ from rfl) hhigh hread' fun b hb ↦ ?_)
    rw [List.mem_singleton.mp hb]
    exact ⟨some_, hsome, not_cp1251_of_koi8R some_ (hread' some_ hsome)⟩
  -- letters of cp866 can be letters in one of the other two tables, too
  | cp866 =>
    by_cases hupper : ∀ byte ∈ high bytes, 0xe0 ≤ byte
    · refine Or.inr ⟨rfl, Or.inl ⟨hupper, ?_⟩⟩
      refine guess_of_all (show all = [] ++ cp1251 :: _ from rfl) hhigh (fun byte hbyte ↦ ?_) nofun
      exact (cp1251_iff_of_cp866 byte (hread' byte hbyte)).mpr (hupper byte hbyte)
    · obtain ⟨low, hupper⟩ := not_forall.mp hupper
      obtain ⟨hlow, hlowlt⟩ := Classical.not_imp.mp hupper
      have hnot : ¬LowercaseByte low cp1251 := fun h ↦
        hlowlt ((cp1251_iff_of_cp866 low (hread' low hlow)).mp h)
      by_cases hone : ∀ byte ∈ high bytes, byte = 0xa3
      · refine Or.inr ⟨rfl, Or.inr ⟨hone, ?_⟩⟩
        refine guess_of_all (show all = [cp1251] ++ koi8R :: _ from rfl) hhigh (fun byte hbyte ↦ ?_) fun b hb ↦ ?_
        · exact (koi8R_iff_of_cp866 byte (hread' byte hbyte)).mpr (hone byte hbyte)
        · rw [List.mem_singleton.mp hb]
          exact ⟨low, hlow, hnot⟩
      · obtain ⟨other, hone⟩ := not_forall.mp hone
        obtain ⟨hother, hne⟩ := Classical.not_imp.mp hone
        refine Or.inl (guess_of_all (show all = [cp1251, koi8R] ++ cp866 :: _ from rfl) hhigh hread' fun b hb ↦ ?_)
        rcases List.mem_cons.mp hb with rfl | hb
        · exact ⟨low, hlow, hnot⟩
        · rw [List.mem_singleton.mp hb]
          exact ⟨other, hother, fun h ↦ hne ((koi8R_iff_of_cp866 other (hread' other hother)).mp h)⟩

/-- **What a guess is worth.** A table is taken for enough high bytes, three quarters of which it reads as lowercase
letters, if it is the first that reads so many of them; none is taken only if no table could be. Lowercase text
is read by its own table, but for two kinds of text in CP866: of the letters behind `п`, or of the letter `г`
alone. Under any table different bytes are read as different text. -/
theorem guess_exact (bytes : List UInt8) :
    (∀ e, guess bytes = some e ↔
      8 ≤ (high bytes).length ∧ (high bytes).length * confident ≤ score bytes e * 4 ∧
        ∃ before after, all = before ++ e :: after ∧ (∀ b ∈ before, score bytes b < score bytes e) ∧
          ∀ b ∈ after, score bytes b ≤ score bytes e) ∧
    (guess bytes = none ↔
      (high bytes).length < 8 ∨ ∀ e, score bytes e * 4 < (high bytes).length * confident) ∧
    (∀ e, 8 ≤ (high bytes).length → (∀ byte ∈ high bytes, isCyrillicLowercase (e.charOf byte) = true) →
      guess bytes = some e ∨ e = cp866 ∧
        ((∀ byte ∈ high bytes, 0xe0 ≤ byte) ∧ guess bytes = some cp1251 ∨
          (∀ byte ∈ high bytes, byte = 0xa3) ∧ guess bytes = some koi8R)) ∧
    ∀ (e : Encoding) other, e.decode bytes = e.decode other → bytes = other :=
  ⟨fun _ ↦ guess_eq_some_iff, guess_eq_none_iff, fun _ ↦ guess_of_lowercase,
    fun e _ h ↦ e.decode_injective h⟩

/-- The word `документ` in KOI8-R. -/
theorem guess_exact_koi8R : guess [0xc4, 0xcf, 0xcb, 0xd5, 0xcd, 0xc5, 0xce, 0xd4] = some koi8R := by
  have hhigh : 8 ≤ (high [0xc4, 0xcf, 0xcb, 0xd5, 0xcd, 0xc5, 0xce, 0xd4]).length := by decide
  have hread : (high [0xc4, 0xcf, 0xcb, 0xd5, 0xcd, 0xc5, 0xce, 0xd4]).all
      (fun byte ↦ isCyrillicLowercase (koi8R.charOf byte)) = true := by decide +kernel
  exact ((guess_exact _).2.2.1 koi8R hhigh (List.all_eq_true.mp hread)).resolve_right (nomatch ·.1)

end Guess

end Encoding

end OpenCrate.Format
