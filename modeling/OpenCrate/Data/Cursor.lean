import OpenCrate.Data.Bytes
import OpenCrate.Data.Except

/-!
# Parsers that consume a whole buffer

A parser moves a position over a buffer. Two properties of parsers are closed under sequencing:

* `Parser.Reads p part a`: wherever `part` stands in a buffer, `p` reads it as `a`;
* `Parser.Stable p`: what `p` reads from a buffer it reads from every longer one.

A parser with both, run on a whole buffer of which nothing may remain, is **exact**: it reads the part as
the value, and refuses every proper front of the part and everything that continues it
(`Parser.exact_runWhole`).
-/

namespace OpenCrate

open Except (refuseIf okOr)

/-- A buffer and the position up to which it has been read. -/
structure Cursor (β : Type) where
  bytes : List β
  pos : ℕ

/-- A parser fails, or returns a value and the cursor behind it. -/
abbrev Parser (ε β : Type) := StateT (Cursor β) (Except ε)

/-- A decoder accepts the buffer as the value, no proper front of the buffer, and no continuation. -/
structure Exact {ε β α : Type} (decode : List β → Except ε α) (buf : List β) (a : α) : Prop where
  decodes : decode buf = .ok a
  refuses_front : ∀ {front rest}, buf = front ++ rest → rest ≠ [] → ∃ e, decode front = .error e
  refuses_more : ∀ {rest}, rest ≠ [] → ∃ e, decode (buf ++ rest) = .error e

namespace Parser

variable {ε β α α' : Type}

/-- Take the next elements, or fail with the error if there are fewer. -/
def take (e : ε) (n : ℕ) : Parser ε β (List β) := fun c ↦ do
  let out ← okOr (slice? c.bytes c.pos (c.pos + n)) e
  .ok (out, { c with pos := c.pos + n })

/-- A computation that reads nothing. -/
def lift (x : Except ε α) : Parser ε β α := fun c ↦ x.map (·, c)

/-- Run a parser a number of times. -/
def times (p : Parser ε β α) : ℕ → Parser ε β (List α)
  | 0 => pure []
  | n + 1 => do
    let a ← p
    let l ← times p n
    pure (a :: l)

/-- Run a parser on a whole buffer, of which nothing may remain. -/
def runWhole (trailing : ε) (p : Parser ε β α) (buf : List β) : Except ε α := do
  let (a, c) ← p ⟨buf, 0⟩
  refuseIf (c.pos ≠ c.bytes.length) trailing
  .ok a

theorem runWhole_eq_ok_iff {trailing : ε} {p : Parser ε β α} {buf : List β} {a : α} :
    runWhole trailing p buf = .ok a ↔ ∃ c, p ⟨buf, 0⟩ = .ok (a, c) ∧ c.pos = c.bytes.length := by
  simp only [runWhole, Except.bind_eq_ok_iff, Prod.exists, Except.refuseIf_eq_ok_iff, not_not,
    Except.ok.injEq]
  constructor
  · rintro ⟨_, c, hrun, _, hend, rfl⟩
    exact ⟨c, hrun, hend⟩
  · rintro ⟨c, hrun, hend⟩
    exact ⟨a, c, hrun, (), hend, rfl⟩

theorem bind_apply (p : Parser ε β α) (f : α → Parser ε β α') (c : Cursor β) :
    (p >>= f) c = p c >>= fun r ↦ f r.1 r.2 := rfl

theorem take_eq_ok_iff {e : ε} {n pos : ℕ} {buf out : List β} {c : Cursor β} :
    take e n ⟨buf, pos⟩ = .ok (out, c) ↔
      slice? buf pos (pos + n) = some out ∧ c = ⟨buf, pos + n⟩ := by
  simp only [take, Except.bind_eq_ok_iff, Except.okOr_eq_ok_iff, Except.ok.injEq, Prod.mk.injEq]
  constructor
  · rintro ⟨_, hslice, rfl, rfl⟩
    exact ⟨hslice, rfl⟩
  · rintro ⟨hslice, rfl⟩
    exact ⟨out, hslice, rfl, rfl⟩

/-! ### Reading a part -/

/-- Wherever the part stands, the parser reads it as the value. -/
def Reads (p : Parser ε β α) (part : List β) (a : α) : Prop :=
  ∀ pre post, p ⟨pre ++ part ++ post, pre.length⟩ =
    .ok (a, ⟨pre ++ part ++ post, pre.length + part.length⟩)

theorem Reads.pure (a : α) : Reads (Pure.pure a : Parser ε β α) [] a := fun _ _ ↦ rfl

/-- Two parsers in a row read two parts in a row. -/
theorem Reads.bind {p : Parser ε β α} {f : α → Parser ε β α'} {part part' : List β} {a : α} {a' : α'}
    (hp : Reads p part a) (hf : Reads (f a) part' a') : Reads (p >>= f) (part ++ part') a' := by
  intro pre post
  have hfirst := hp pre (part' ++ post)
  have hsecond := hf (pre ++ part) post
  rw [List.length_append] at hsecond
  rw [bind_apply, ← List.append_assoc pre part part', List.append_assoc (pre ++ part) part' post,
    hfirst, Except.ok_bind]
  show f a ⟨pre ++ part ++ (part' ++ post), pre.length + part.length⟩ = _
  rw [← List.append_assoc (pre ++ part) part' post, hsecond, List.length_append, Nat.add_assoc]

theorem Reads.take (e : ε) {n : ℕ} {part : List β} (h : part.length = n) :
    Reads (take e n) part part := by
  intro pre post
  subst h
  rw [take_eq_ok_iff, List.append_assoc]
  exact ⟨slice?_append pre part post, rfl⟩

theorem Reads.lift {x : Except ε α} {a : α} (h : x = .ok a) :
    Reads (lift x : Parser ε β α) [] a := by
  intro pre post
  rw [h]
  rfl

theorem Reads.bind_pure {p : Parser ε β α} {part : List β} {a : α} (h : Reads p part a)
    (f : α → α') : Reads (p >>= fun a ↦ Pure.pure (f a)) part (f a) := by
  rw [← List.append_nil part]
  exact h.bind (Reads.pure (f a))

theorem Reads.bind_lift {p : Parser ε β α} {part : List β} {a : α} {x : α → Except ε α'} {a' : α'}
    (h : Reads p part a) (hx : x a = .ok a') : Reads (p >>= fun a ↦ Parser.lift (x a)) part a' := by
  rw [← List.append_nil part]
  exact h.bind (Reads.lift hx)

theorem Reads.lift_bind {x : Except ε α} {f : α → Parser ε β α'} {part : List β} {a : α} {a' : α'}
    (hx : x = .ok a) (h : Reads (f a) part a') : Reads (Parser.lift x >>= f) part a' :=
  (Reads.lift hx).bind h

/-- A repeated parser reads the parts of the items, in their order. -/
theorem Reads.times {p : Parser ε β α} {part : α → List β} {l : List α}
    (h : ∀ a ∈ l, Reads p (part a) a) : Reads (times p l.length) (l.flatMap part) l := by
  induction l with
  | nil => exact Reads.pure []
  | cons a l ih =>
    rw [List.flatMap_cons]
    refine (h a List.mem_cons_self).bind ?_
    rw [← List.append_nil (l.flatMap part)]
    exact (ih fun b hb ↦ h b (List.mem_cons_of_mem _ hb)).bind (Reads.pure _)

/-! ### Longer buffers -/

/-- What the parser reads from a buffer it reads from every longer one. -/
def Stable (p : Parser ε β α) : Prop :=
  ∀ buf pos a c, p ⟨buf, pos⟩ = .ok (a, c) →
    c.bytes = buf ∧ ∀ more, p ⟨buf ++ more, pos⟩ = .ok (a, ⟨buf ++ more, c.pos⟩)

theorem Stable.pure (a : α) : Stable (Pure.pure a : Parser ε β α) := by
  intro buf pos a' c h
  obtain ⟨rfl, rfl⟩ := Prod.mk.inj (Except.ok.inj h)
  exact ⟨rfl, fun _ ↦ rfl⟩

theorem Stable.bind {p : Parser ε β α} {f : α → Parser ε β α'} (hp : Stable p)
    (hf : ∀ a, Stable (f a)) : Stable (p >>= f) := by
  intro buf pos a' c h
  rw [bind_apply] at h
  obtain ⟨⟨a, buf', pos'⟩, hfirst, hsecond⟩ := Except.bind_eq_ok_iff.mp h
  obtain ⟨rfl, hfirst⟩ := hp _ _ _ _ hfirst
  obtain ⟨hbytes, hsecond⟩ := hf a _ _ _ _ hsecond
  refine ⟨hbytes, fun more ↦ ?_⟩
  rw [bind_apply, hfirst, Except.ok_bind]
  exact hsecond more

theorem Stable.take (e : ε) (n : ℕ) : Stable (take e n : Parser ε β (List β)) := by
  intro buf pos out c h
  obtain ⟨hslice, rfl⟩ := take_eq_ok_iff.mp h
  exact ⟨rfl, fun more ↦ take_eq_ok_iff.mpr ⟨slice?_append_of_eq_some hslice more, rfl⟩⟩

theorem Stable.lift (x : Except ε α) : Stable (lift x : Parser ε β α) := by
  intro buf pos a c h
  obtain ⟨a', rfl, hpair⟩ := Except.map_eq_ok_iff.mp h
  obtain ⟨rfl, rfl⟩ := Prod.mk.inj hpair
  exact ⟨rfl, fun _ ↦ rfl⟩

/-- Repetition keeps stability. -/
theorem Stable.times {p : Parser ε β α} (hp : Stable p) (n : ℕ) : Stable (times p n) := by
  induction n with
  | zero => exact Stable.pure []
  | succ n ih => exact hp.bind fun _ ↦ ih.bind fun _ ↦ Stable.pure _

/-! ### The whole buffer -/

/-- **A stable parser that reads the part is exact on it.** -/
theorem exact_runWhole (trailing : ε) {p : Parser ε β α} {buf : List β} {a : α} (hp : Stable p)
    (h : Reads p buf a) : Exact (runWhole trailing p) buf a := by
  have hread : ∀ more, p ⟨buf ++ more, 0⟩ = .ok (a, ⟨buf ++ more, buf.length⟩) := by
    intro more
    have := h [] more
    rwa [List.nil_append, List.length_nil, Nat.zero_add] at this
  have hrefuses : ∀ buf', (∀ a' c, p ⟨buf', 0⟩ = .ok (a', c) → c.pos ≠ c.bytes.length) →
      ∃ e, runWhole trailing p buf' = .error e := by
    intro buf' hshort
    rcases hrun : runWhole trailing p buf' with e | a'
    · exact ⟨e, rfl⟩
    · obtain ⟨c, hc, hend⟩ := runWhole_eq_ok_iff.mp hrun
      exact absurd hend (hshort a' c hc)
  refine ⟨?_, ?_, ?_⟩
  · have hall := hread []
    rw [List.append_nil] at hall
    exact runWhole_eq_ok_iff.mpr ⟨_, hall, rfl⟩
  · intro front rest hbuf hrest
    subst hbuf
    refine hrefuses front fun a' c hrun hend ↦ hrest ?_
    -- what is read from the front is read from the buffer, and does not reach its end
    obtain ⟨hbytes, hmore⟩ := hp _ _ _ _ hrun
    have hsame := hread []
    rw [List.append_nil, hmore rest] at hsame
    have hpos : c.pos = (front ++ rest).length :=
      congrArg Cursor.pos (Prod.mk.inj (Except.ok.inj hsame)).2
    rw [hend, hbytes, List.length_append] at hpos
    exact List.length_eq_zero_iff.mp (by omega)
  · intro rest hrest
    refine hrefuses _ fun a' c hrun ↦ ?_
    obtain ⟨-, rfl⟩ := Prod.mk.inj (Except.ok.inj ((hread rest).symm.trans hrun))
    have hpos := List.length_pos_iff.mpr hrest
    show buf.length ≠ (buf ++ rest).length
    rw [List.length_append]
    omega

end Parser

end OpenCrate
