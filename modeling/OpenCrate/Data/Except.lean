import Mathlib.Tactic.Common

/-!
# Computations that may refuse

Inversion and invariant rules for `Except`: what a computation that returned a value must have done.
A sequence of checks is peeled apart with `bind_eq_ok_iff`, a loop with `foldlM_invariant`.
-/

namespace Except

variable {ε α β : Type}

/-! ### Binding -/

/-- A sequence returned a value exactly when both halves did. -/
theorem bind_eq_ok_iff {x : Except ε α} {f : α → Except ε β} {b : β} :
    x >>= f = .ok b ↔ ∃ a, x = .ok a ∧ f a = .ok b := by
  cases x with
  | error e => exact ⟨nofun, fun ⟨_, h, _⟩ ↦ nomatch h⟩
  | ok a => exact ⟨fun h ↦ ⟨a, rfl, h⟩, fun ⟨_, h, h'⟩ ↦ by cases h; exact h'⟩

/-- A sequence refused exactly when its first half did, or went through and the second half did. -/
theorem bind_eq_error_iff {x : Except ε α} {f : α → Except ε β} {e : ε} :
    x >>= f = .error e ↔ x = .error e ∨ ∃ a, x = .ok a ∧ f a = .error e := by
  cases x with
  | error e' => exact ⟨fun h ↦ Or.inl (by cases h; rfl), fun h ↦ by
      rcases h with h | ⟨_, h, _⟩ <;> cases h; rfl⟩
  | ok a => exact ⟨fun h ↦ Or.inr ⟨a, rfl, h⟩, fun h ↦ by
      rcases h with h | ⟨_, h, h'⟩
      · cases h
      · cases h
        exact h'⟩

-- The parentheses keep `simp` from using this as a definitional step: the kernel would then compare
-- long computations by running them.
@[simp] theorem ok_bind (a : α) (f : α → Except ε β) : (.ok a : Except ε α) >>= f = f a := (rfl)

@[simp] theorem error_bind (e : ε) (f : α → Except ε β) :
    (.error e : Except ε α) >>= f = .error e := rfl

@[simp] theorem ok_map (f : α → β) (a : α) : (.ok a : Except ε α).map f = .ok (f a) := rfl

@[simp] theorem ok_mapError {ε' : Type} (f : ε → ε') (a : α) :
    (.ok a : Except ε α).mapError f = .ok a := rfl

theorem map_map {γ : Type} (x : Except ε α) (f : α → β) (g : β → γ) :
    (x.map f).map g = x.map fun a ↦ g (f a) := by
  cases x <;> rfl

theorem map_bind {γ : Type} (x : Except ε α) (f : α → β) (g : β → Except ε γ) :
    x.map f >>= g = x >>= fun a ↦ g (f a) := by
  cases x <;> rfl

/-- A mapped computation returned a value exactly when the computation did. -/
theorem map_eq_ok_iff {x : Except ε α} {f : α → β} {b : β} :
    x.map f = .ok b ↔ ∃ a, x = .ok a ∧ f a = b := by
  cases x with
  | error e => exact ⟨nofun, fun ⟨_, h, _⟩ ↦ nomatch h⟩
  | ok a => exact ⟨fun h ↦ ⟨a, rfl, Except.ok.inj h⟩, fun ⟨_, h, h'⟩ ↦ by cases h; rw [← h']; rfl⟩

theorem exists_map_eq_ok {x : Except ε α} {f : α → β} {a : α} (h : x = .ok a) : ∃ b, x.map f = .ok b :=
  ⟨f a, map_eq_ok_iff.mpr ⟨a, h, rfl⟩⟩

/-- Equal steps make equal computations. -/
theorem bind_congr_of_eq {x y : Except ε α} {f g : α → Except ε β} (hx : x = y)
    (hf : ∀ a, f a = g a) : x >>= f = y >>= g := by
  rw [hx, funext hf]

/-- Computations whose first steps agree in part and which go on alike agree in part. -/
theorem map_bind_congr {γ π : Type} {x y : Except ε α} {p : α → π} {f g : α → Except ε β} {part : β → γ}
    (h : x.map p = y.map p) (hfg : ∀ a b, p a = p b → (f a).map part = (g b).map part) :
    (x >>= f).map part = (y >>= g).map part := by
  cases x with
  | error e =>
    cases y with
    | error e' => exact congrArg Except.error (Except.error.inj h)
    | ok b => cases h
  | ok a =>
    cases y with
    | error e' => cases h
    | ok b => exact hfg a b (Except.ok.inj h)

/-- Computations that go on alike agree in part. -/
theorem map_bind_congr_right {γ : Type} {x : Except ε α} {f g : α → Except ε β} {part : β → γ}
    (h : ∀ a, (f a).map part = (g a).map part) : (x >>= f).map part = (x >>= g).map part := by
  cases x with
  | error e => rfl
  | ok a => exact h a

theorem map_mapError {ε' : Type} (x : Except ε α) (f : ε → ε') (p : α → β) :
    (x.mapError f).map p = (x.map p).mapError f := by
  cases x <;> rfl

theorem ok_ne_error {a : α} {e : ε} : (.ok a : Except ε α) ≠ .error e := nofun

theorem error_ne_ok {a : α} {e : ε} : (.error e : Except ε α) ≠ .ok a := nofun

/-- A failure that no step has is none of the whole. -/
theorem bind_ne_error {x : Except ε α} {f : α → Except ε β} {e : ε} (hx : x ≠ .error e)
    (hf : ∀ a, x = .ok a → f a ≠ .error e) : x >>= f ≠ .error e := by
  intro h
  rcases bind_eq_error_iff.mp h with h | ⟨a, ha, h⟩
  · exact hx h
  · exact hf a ha h

theorem mapError_ne_error {ε' : Type} {f : ε → ε'} {e : ε'} (hf : ∀ e', f e' ≠ e)
    (x : Except ε α) : x.mapError f ≠ .error e := by
  intro h
  cases x with
  | error e' => exact hf e' (Except.error.inj h)
  | ok a => cases h

/-- Renaming the refusals changes no value. -/
theorem mapError_eq_ok_iff {ε' : Type} {x : Except ε α} {f : ε → ε'} {a : α} :
    x.mapError f = .ok a ↔ x = .ok a := by
  cases x <;> simp [Except.mapError]

/-! ### Checks -/

/-- A check, then a computation: both went through. -/
theorem check_bind_eq_ok_iff {x : Except ε Unit} {f : Unit → Except ε β} {b : β} :
    x >>= f = .ok b ↔ x = .ok () ∧ f () = .ok b :=
  bind_eq_ok_iff.trans ⟨fun ⟨_, h⟩ ↦ h, fun h ↦ ⟨(), h⟩⟩

/-- Refuse with `e` when the condition holds, go on otherwise. -/
def refuseIf (c : Prop) [Decidable c] (e : ε) : Except ε Unit :=
  if c then .error e else .ok ()

@[simp] theorem refuseIf_eq_ok_iff {c : Prop} [Decidable c] {e : ε} {u : Unit} :
    refuseIf c e = .ok u ↔ ¬c := by
  rw [refuseIf]
  split_ifs with hc <;> simp [hc]

@[simp] theorem refuseIf_eq_error_iff {c : Prop} [Decidable c] {e e' : ε} :
    refuseIf c e = .error e' ↔ c ∧ e = e' := by
  rw [refuseIf]
  split_ifs with hc <;> simp [hc]

theorem refuseIf_ne_error {c : Prop} [Decidable c] {e e' : ε} (he : e ≠ e') :
    refuseIf c e ≠ .error e' :=
  fun h ↦ he (refuseIf_eq_error_iff.mp h).2

theorem refuseIf_of_not {c : Prop} [Decidable c] (hc : ¬c) (e : ε) : refuseIf c e = .ok () :=
  if_neg hc

/-- The value of an option, or a refusal with `e`. -/
def okOr (x : Option α) (e : ε) : Except ε α :=
  match x with
  | some a => .ok a
  | none => .error e

@[simp] theorem okOr_some (a : α) (e : ε) : okOr (some a) e = .ok a := rfl

@[simp] theorem okOr_none (e : ε) : (okOr none e : Except ε α) = .error e := rfl

@[simp] theorem okOr_eq_ok_iff {x : Option α} {e : ε} {a : α} : okOr x e = .ok a ↔ x = some a := by
  rcases x with - | b <;> simp

/-! ### Loops -/

/-- A check that returns nothing succeeds when it does not refuse. -/
theorem isOk_eq_false_iff {x : Except ε Unit} : x.isOk = false ↔ ¬x = .ok () := by
  rcases x with e | u
  · exact ⟨fun _ ↦ nofun, fun _ ↦ rfl⟩
  · exact ⟨nofun, fun h ↦ absurd rfl h⟩

/-- A check of every element. -/
theorem forM_eq_ok_iff {f : α → Except ε Unit} {l : List α} {u : Unit} :
    l.forM f = .ok u ↔ ∀ a ∈ l, f a = .ok () := by
  induction l with
  | nil => exact ⟨fun _ ↦ nofun, fun _ ↦ rfl⟩
  | cons a l ih =>
    show (f a >>= fun _ ↦ l.forM f) = .ok u ↔ _
    rw [check_bind_eq_ok_iff, List.forall_mem_cons]
    exact and_congr_right fun _ ↦ ih

/-- Every element gave a value. -/
theorem mapM_eq_ok_iff {f : α → Except ε β} {l : List α} {l' : List β} :
    l.mapM f = .ok l' ↔ List.Forall₂ (fun a b ↦ f a = .ok b) l l' := by
  induction l generalizing l' with
  | nil =>
    constructor
    · intro h
      obtain rfl := Except.ok.inj h
      exact .nil
    · rintro ⟨⟩
      rfl
  | cons a l ih =>
    rw [List.mapM_cons, bind_eq_ok_iff]
    constructor
    · rintro ⟨b, hb, h⟩
      obtain ⟨bs, hbs, heq⟩ := bind_eq_ok_iff.mp h
      obtain rfl := Except.ok.inj heq
      exact .cons hb (ih.mp hbs)
    · rintro (- | ⟨hb, hbs⟩)
      exact ⟨_, hb, bind_eq_ok_iff.mpr ⟨_, ih.mpr hbs, rfl⟩⟩

/-- What holds of every value holds of those collected. -/
theorem forall_of_mapM {P : β → Prop} {f : α → Except ε β} {l : List α} {l' : List β}
    (h : l.mapM f = .ok l') (hf : ∀ {a b}, f a = .ok b → P b) : ∀ b ∈ l', P b := by
  have hforall := mapM_eq_ok_iff.mp h
  clear h
  induction hforall with
  | nil => exact nofun
  | cons hb _ ih => exact List.forall_mem_cons.mpr ⟨hf hb, ih⟩

@[simp] theorem foldlM_nil (f : β → α → Except ε β) (b : β) : [].foldlM f b = .ok b := rfl

/-- **The invariant rule.** What holds before a loop and is kept by every step of it that goes
through holds after it. -/
theorem foldlM_invariant {P : β → Prop} {f : β → α → Except ε β} {l : List α} {b b' : β}
    (h : l.foldlM f b = .ok b') (hb : P b)
    (hstep : ∀ a ∈ l, ∀ {c c'}, P c → f c a = .ok c' → P c') : P b' := by
  induction l generalizing b with
  | nil => exact Except.ok.inj h ▸ hb
  | cons a l ih =>
    rw [List.foldlM_cons] at h
    obtain ⟨c, hc, h⟩ := bind_eq_ok_iff.mp h
    exact ih h (hstep a List.mem_cons_self hb hc) fun a' ha' ↦
      hstep a' (List.mem_cons_of_mem _ ha')

/-- A loop whose steps all go through goes through. -/
theorem exists_foldlM {f : β → α → Except ε β} {l : List α} (hstep : ∀ a ∈ l, ∀ b, ∃ b', f b a = .ok b')
    (b : β) : ∃ b', l.foldlM f b = .ok b' := by
  induction l generalizing b with
  | nil => exact ⟨b, rfl⟩
  | cons a l ih =>
    obtain ⟨ha, hl⟩ := List.forall_mem_cons.mp hstep
    obtain ⟨c, hc⟩ := ha b
    obtain ⟨b', hb'⟩ := ih hl c
    exact ⟨b', by rw [List.foldlM_cons, hc, ok_bind, hb']⟩

/-- A loop whose steps begin with a check: every element passes, and the loop without the checks goes
through. -/
theorem foldlM_check_eq_ok_iff {check : α → Except ε Unit} {f : β → α → Except ε β} {l : List α} {b b' : β} :
    l.foldlM (fun b a ↦ check a >>= fun _ ↦ f b a) b = .ok b' ↔
      (∀ a ∈ l, check a = .ok ()) ∧ l.foldlM f b = .ok b' := by
  induction l generalizing b with
  | nil => exact (and_iff_right nofun).symm
  | cons a l ih =>
    simp only [List.foldlM_cons, bind_eq_ok_iff (x := f b a), check_bind_eq_ok_iff, bind_assoc, ih,
      List.forall_mem_cons]
    constructor
    · intro h
      obtain ⟨ha, c, hc, hl, hrest⟩ := h
      exact ⟨⟨ha, hl⟩, c, hc, hrest⟩
    · intro h
      obtain ⟨⟨ha, hl⟩, c, hc, hrest⟩ := h
      exact ⟨ha, c, hc, hl, hrest⟩

/-- What one step of a loop brings about and the later ones keep holds after it. -/
theorem foldlM_of_mem {P : β → Prop} {f : β → α → Except ε β} {l l' : List α} {a : α} {b b' : β}
    (h : (l ++ a :: l').foldlM f b = .ok b') (hset : ∀ c c', f c a = .ok c' → P c')
    (hstep : ∀ a ∈ l', ∀ c c', P c → f c a = .ok c' → P c') : P b' := by
  rw [List.foldlM_append] at h
  obtain ⟨c, -, h⟩ := bind_eq_ok_iff.mp h
  rw [List.foldlM_cons] at h
  obtain ⟨c', hc', h⟩ := bind_eq_ok_iff.mp h
  exact foldlM_invariant h (hset c c' hc') fun a ha {c c'} hc ↦ hstep a ha c c' hc

/-- **Two loops that differ in what is forgotten.** If the steps that are left out change nothing but
what `e` forgets, and no step looks at it, the loops agree up to `e`. -/
theorem map_foldlM_eq_filter {γ : Type} {e : β → γ} {f : β → α → Except ε β} {keep : α → Bool}
    {l : List α}
    (hkeep : ∀ a ∈ l, keep a = true → ∀ b b', e b = e b' → (f b a).map e = (f b' a).map e)
    (hleave : ∀ a ∈ l, keep a = false → ∀ b, (f b a).map e = .ok (e b)) {b b' : β}
    (hb : e b = e b') : (l.foldlM f b).map e = ((l.filter keep).foldlM f b').map e := by
  induction l generalizing b b' with
  | nil => exact congrArg Except.ok hb
  | cons a l ih =>
    obtain ⟨hkeepa, hkeepl⟩ := List.forall_mem_cons.mp hkeep
    obtain ⟨hleavea, hleavel⟩ := List.forall_mem_cons.mp hleave
    -- a step that is left out is not seen, and one that is kept goes the same way on both sides
    rcases hka : keep a
    · rw [List.filter_cons_of_neg (by simp [hka]), List.foldlM_cons]
      obtain ⟨c, hc, hec⟩ := map_eq_ok_iff.mp (hleavea hka b)
      rw [hc, ok_bind]
      exact ih hkeepl hleavel (hec.trans hb)
    · rw [List.filter_cons_of_pos hka, List.foldlM_cons, List.foldlM_cons]
      have hstep := hkeepa hka b b' hb
      rcases hf : f b a with err | c <;> rcases hf' : f b' a with err' | c' <;> rw [hf, hf'] at hstep
      · exact congrArg Except.error (Except.error.inj hstep)
      · cases hstep
      · cases hstep
      · exact ih hkeepl hleavel (Except.ok.inj hstep)

/-- In a loop that went through every element was accepted. -/
theorem exists_of_mem_foldlM {f : β → α → Except ε β} {l : List α} {b b' : β}
    (h : l.foldlM f b = .ok b') {a : α} (ha : a ∈ l) : ∃ c c', f c a = .ok c' := by
  induction l generalizing b with
  | nil => exact absurd ha List.not_mem_nil
  | cons a' l ih =>
    rw [List.foldlM_cons] at h
    obtain ⟨c, hc, h⟩ := bind_eq_ok_iff.mp h
    rcases List.mem_cons.mp ha with rfl | ha
    · exact ⟨b, c, hc⟩
    · exact ih h ha

/-! ### Writers and readers -/

/-- **The law of a writer and its reader.** What is written is read back, up to a normal form; and what
is read can be written, and is read back as it is. -/
structure WriterReader (write : α → Except ε β) (read : β → Except ε α) (normal : α → α) : Prop where
  read_back : ∀ {a b}, write a = .ok b → read b = .ok (normal a)
  rewrite : ∀ {a b}, read b = .ok a → ∃ b', write a = .ok b' ∧ read b' = .ok a

/-- A law from three parts: what is read is normal and can be written. -/
theorem WriterReader.of_exists {write : α → Except ε β} {read : β → Except ε α} {normal : α → α}
    (hback : ∀ {a b}, write a = .ok b → read b = .ok (normal a))
    (hwrite : ∀ {a b}, read b = .ok a → ∃ b', write a = .ok b')
    (hnormal : ∀ {a b}, read b = .ok a → normal a = a) : WriterReader write read normal where
  read_back := hback
  rewrite h := by
    obtain ⟨b', hb'⟩ := hwrite h
    exact ⟨b', hb', (hback hb').trans (congrArg Except.ok (hnormal h))⟩

/-- What is written is read back for the values of `good`, and for no others. -/
def ReadsBackIff (write : α → Except ε β) (read : β → Except ε α) (good : α → Prop) : Prop :=
  ∀ ⦃a b⦄, write a = .ok b → (read b = .ok a ↔ good a)

/-- A reader that accepts only what is written for what it reads. -/
def OneSpelling (write : α → Except ε β) (read : β → Except ε α) : Prop :=
  ∀ ⦃a b⦄, read b = .ok a → write a = .ok b

/-- A strict reader: it accepts what is written, and nothing else. -/
def Strict (write : α → Except ε β) (read : β → Except ε α) : Prop :=
  ∀ ⦃a b⦄, read b = .ok a ↔ write a = .ok b

/-- A strict reader reads back everything. -/
theorem Strict.readsBackIff {write : α → Except ε β} {read : β → Except ε α} (h : Strict write read) :
    ReadsBackIff write read fun _ ↦ True :=
  fun _ _ hwrite ↦ iff_true_intro (h.mpr hwrite)

theorem Strict.oneSpelling {write : α → Except ε β} {read : β → Except ε α} (h : Strict write read) :
    OneSpelling write read :=
  fun _ _ hread ↦ h.mp hread

/-- One kind of a tagged union: what is read as a member of the union is written as it came. -/
theorem OneSpelling.tagged {κ γ : Type} {write : α → Except ε β} {read : β → Except ε α}
    (h : OneSpelling write read) {C : α → γ} (parts : γ → Except ε (κ × β)) {kind : κ}
    (hparts : ∀ a, parts (C a) = (write a).map (Prod.mk kind)) {b : β} {c : γ}
    (hread : (read b).map C = .ok c) : parts c = .ok (kind, b) := by
  obtain ⟨a, ha, rfl⟩ := map_eq_ok_iff.mp hread
  rw [hparts, h ha, ok_map]

/-- One kind of a tagged union: its values are read back as members of the union. -/
theorem ReadsBackIff.tagged {κ γ : Type} {write : α → Except ε β} {read : β → Except ε α} {good : α → Prop}
    (h : ReadsBackIff write read good) {C : α → γ} (hC : Function.Injective C)
    (readTagged : κ → β → Except ε γ) {k kind : κ} {a : α} {b : β}
    (hread : ∀ b, readTagged k b = (read b).map C) (hwrite : (write a).map (Prod.mk k) = .ok (kind, b)) :
    readTagged kind b = .ok (C a) ↔ good a := by
  obtain ⟨b', hb', hpair⟩ := map_eq_ok_iff.mp hwrite
  obtain ⟨rfl, rfl⟩ := Prod.mk.inj hpair
  rw [hread, map_eq_ok_iff, ← h hb']
  constructor
  · rintro ⟨a', ha', hCa⟩
    exact hC hCa ▸ ha'
  · intro ha
    exact ⟨a, ha, rfl⟩

end Except
