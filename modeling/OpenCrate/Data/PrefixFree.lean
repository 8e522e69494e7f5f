import OpenCrate.Data.Framed

/-!
# Prefix-free encodings

An encoding is *prefix-free* when its output can be split off the front of any longer string. A fixed
length implies it, and so does a length written in front. Prefix-free parts that follow one another are
read back one by one, and after them one last part may be injective only.
-/

namespace OpenCrate

/-- The output of the encoding can be split off the front of any longer string. -/
def PrefixFree {α β : Type} (f : α → List β) : Prop :=
  ∀ a b s t, f a ++ s = f b ++ t → a = b ∧ s = t

namespace PrefixFree

variable {α β γ : Type} {f : α → List β}

theorem injective (h : PrefixFree f) : Function.Injective f := by
  intro a b hab
  exact (h a b [] [] (by rw [hab])).1

/-- No output is the beginning of another one. -/
theorem of_not_isPrefix (h : ∀ a b, f a <+: f b → a = b) : PrefixFree f := by
  intro a b s t hst
  have hab : a = b := by
    rcases List.append_eq_append_iff.mp hst with ⟨m, hm, -⟩ | ⟨m, hm, -⟩
    · exact h a b ⟨m, hm.symm⟩
    · exact (h b a ⟨m, hm.symm⟩).symm
  subst hab
  exact ⟨rfl, List.append_cancel_left hst⟩

/-- An injective encoding of one length. -/
theorem of_length {n : ℕ} (hlen : ∀ a, (f a).length = n) (h : Function.Injective f) :
    PrefixFree f := by
  intro a b s t hst
  have hparts := List.append_inj hst ((hlen a).trans (hlen b).symm)
  exact ⟨h hparts.1, hparts.2⟩

/-- What chooses the rest of the encoding is written in front. -/
theorem append {δ : α → Type} (hf : PrefixFree f) {g : ∀ a, δ a → List β}
    (hg : ∀ a, Function.Injective (g a)) :
    Function.Injective fun p : Σ a, δ a ↦ f p.1 ++ g p.1 p.2 := by
  rintro ⟨a, x⟩ ⟨b, y⟩ h
  obtain ⟨hab, hxy⟩ := hf _ _ _ _ h
  cases hab
  exact congrArg _ (hg a hxy)

end PrefixFree

/-! ### Encodings of the language -/

theorem prefixFree_vector {α : Type} (n : ℕ) :
    PrefixFree fun v : List.Vector α n ↦ v.toList :=
  PrefixFree.of_length (fun v ↦ v.toList_length) fun v w h ↦ List.Vector.eq v w h

section

variable {τ : Type} [LeInt τ]

theorem toLeBytes_injective : Function.Injective (toLeBytes : τ → List UInt8) := by
  intro a b h
  have hb : ofLeBytes? (toLeBytes a) = some b := by
    rw [h, ofLeBytes?_toLeBytes]
  rw [ofLeBytes?_toLeBytes] at hb
  exact Option.some.inj hb

theorem prefixFree_toLeBytes : PrefixFree (toLeBytes : τ → List UInt8) :=
  PrefixFree.of_length length_toLeBytes toLeBytes_injective

theorem prefixFree_toBeBytes : PrefixFree (toBeBytes : τ → List UInt8) :=
  PrefixFree.of_length (fun a ↦ (List.length_reverse ..).trans (length_toLeBytes a))
    fun _ _ h ↦ toLeBytes_injective (List.reverse_injective h)

end

/-- Framed items that fit their length are split off the front. -/
theorem frame_append_inj {a b s t : List UInt8} (ha : a.length < 2 ^ 32) (hb : b.length < 2 ^ 32)
    (h : frame a ++ s = frame b ++ t) : a = b ∧ s = t := by
  rw [frame, frame, List.append_assoc, List.append_assoc] at h
  obtain ⟨hlen, hrest⟩ := prefixFree_toLeBytes _ _ _ _ h
  have hlength : a.length = b.length := by
    have := congrArg UInt32.toNat hlen
    rwa [UInt32.toNat_ofNat_of_lt' ha, UInt32.toNat_ofNat_of_lt' hb] at this
  exact List.append_inj hrest hlength

theorem frame_inj {a b : List UInt8} (ha : a.length < 2 ^ 32) (hb : b.length < 2 ^ 32)
    (h : frame a = frame b) : a = b :=
  (frame_append_inj ha hb (congrArg (· ++ []) h)).1

end OpenCrate
