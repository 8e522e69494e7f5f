import OpenCrate.Data.HashChain
import OpenCrate.Protocol.ControlSigned

/-!
# The history of a binding

`continuity` of `control` compares a binding with the one seen before it. A client that starts at a
binding of revision 0 and goes on only to the same binding or to the next one that names it keeps a
chain of documents linked by their hashes (`run_linked`), and the head of such a chain determines it.

A Merkle tree does not occur here: of that library only the notion of a collision is used.
-/

namespace OpenCrate.Protocol

open OpenCrate.Format OpenCrate.Crypto
open HashChain (Linked)
open Merkle (Collides)

namespace Control

/-- How the new binding relates to a previously seen one. -/
inductive Continuity where
  /-- Same revision, same bytes. -/
  | same
  /-- Newer. `adjacent` means the next numbered revision, referencing the previously seen one. -/
  | newer (adjacent : Bool)
  /-- Older than previously seen: rollback. -/
  | rollback
  /-- Same revision with different bytes, or the next revision does not reference the previously seen
  one: a history fork. -/
  | fork
  /-- Different server, organization or epoch. -/
  | unrelated
  deriving DecidableEq

variable (sha : Sha2)

/-- Compare a binding with a previously seen one. -/
def continuity (seen : Binding) (seenBytes : List UInt8) (new : Binding) (newBytes : List UInt8) :
    Continuity :=
  if seen.authorityId ≠ new.authorityId ∨ seen.tenant ≠ new.tenant ∨ seen.epoch ≠ new.epoch then
    .unrelated
  else
    match compare new.revision seen.revision with
    | .lt => .rollback
    | .eq => if digest sha seenBytes = digest sha newBytes then .same else .fork
    | .gt =>
      let adjacent := decide (seen.revision.checkedAdd 1 = some new.revision)
      if adjacent ∧ new.previous ≠ digest sha seenBytes then .fork else .newer adjacent

/-! ### The classification -/

/-- Two bindings of one server, organization and epoch. -/
def Related (a b : Binding) : Prop :=
  a.authorityId = b.authorityId ∧ a.tenant = b.tenant ∧ a.epoch = b.epoch

variable {sha} {a b : Binding} {aBytes bBytes : List UInt8}

/-- Being of one history does not depend on the order. -/
theorem Related.symm (h : Related a b) : Related b a :=
  ⟨h.1.symm, h.2.1.symm, h.2.2.symm⟩

/-- What the comparison says of two bindings of one history. -/
theorem continuity_of_related (h : Related a b) :
    continuity sha a aBytes b bBytes =
      match compare b.revision a.revision with
      | .lt => .rollback
      | .eq => if digest sha aBytes = digest sha bBytes then .same else .fork
      | .gt =>
        if decide (a.revision.checkedAdd 1 = some b.revision) ∧ b.previous ≠ digest sha aBytes then
          .fork
        else .newer (decide (a.revision.checkedAdd 1 = some b.revision)) := by
  have hrelated : ¬(a.authorityId ≠ b.authorityId ∨ a.tenant ≠ b.tenant ∨ a.epoch ≠ b.epoch) := by
    simpa [not_or, Related] using h
  rw [continuity, if_neg hrelated]

/-- Every other answer than unrelated is about bindings of one history. -/
theorem related_of_continuity {c : Continuity} (h : continuity sha a aBytes b bBytes = c)
    (hc : c ≠ .unrelated) : Related a b := by
  by_contra hrelated
  refine hc (h.symm.trans (if_pos ?_))
  by_contra hsame
  push Not at hsame
  exact hrelated hsame

/-- A rollback is an older revision. -/
theorem continuity_eq_rollback_iff :
    continuity sha a aBytes b bBytes = .rollback ↔ Related a b ∧ b.revision < a.revision := by
  constructor
  · intro h
    have hrelated := related_of_continuity h nofun
    rw [continuity_of_related hrelated] at h
    refine ⟨hrelated, compare_lt_iff_lt.1 ?_⟩
    split at h
    · assumption
    · split_ifs at h
    · split_ifs at h
  · rintro ⟨hrelated, hlt⟩
    rw [continuity_of_related hrelated, compare_lt_iff_lt.2 hlt]

/-- The same is the same revision with the same hash. -/
theorem continuity_eq_same_iff :
    continuity sha a aBytes b bBytes = .same ↔
      Related a b ∧ a.revision = b.revision ∧ digest sha aBytes = digest sha bBytes := by
  constructor
  · intro h
    have hrelated := related_of_continuity h nofun
    rw [continuity_of_related hrelated] at h
    split at h
    · cases h
    · rename_i hcompare
      split_ifs at h with hdigest
      exact ⟨hrelated, (compare_eq_iff_eq.1 hcompare).symm, hdigest⟩
    · split_ifs at h
  · rintro ⟨hrelated, hrevision, hdigest⟩
    rw [continuity_of_related hrelated, compare_eq_iff_eq.2 hrevision.symm]
    exact if_pos hdigest

/-- What is newer has a later revision. -/
theorem revision_lt_of_newer {adjacent : Bool}
    (h : continuity sha a aBytes b bBytes = .newer adjacent) : Related a b ∧ a.revision < b.revision := by
  have hrelated := related_of_continuity h nofun
  rw [continuity_of_related hrelated] at h
  refine ⟨hrelated, compare_gt_iff_gt.1 ?_⟩
  split at h
  · cases h
  · split_ifs at h
  · assumption

/-- The next binding has the next revision and names the hash of the one before it. -/
theorem continuity_eq_newer_true_iff :
    continuity sha a aBytes b bBytes = .newer true ↔
      Related a b ∧ b.revision.toNat = a.revision.toNat + 1 ∧ b.previous = digest sha aBytes := by
  have hnext : a.revision.checkedAdd 1 = some b.revision ↔
      b.revision.toNat = a.revision.toNat + 1 := UInt64.tryFrom_eq_some_iff
  constructor
  · intro h
    obtain ⟨hrelated, hlt⟩ := revision_lt_of_newer h
    rw [continuity_of_related hrelated, compare_gt_iff_gt.2 hlt] at h
    simp only [decide_eq_true_iff] at h
    split_ifs at h with hfork
    have hadjacent := of_decide_eq_true (Continuity.newer.inj h)
    exact ⟨hrelated, hnext.1 hadjacent, not_not.1 fun hne ↦ hfork ⟨hadjacent, hne⟩⟩
  · rintro ⟨hrelated, hrevision, hprevious⟩
    have hlt : a.revision < b.revision := UInt64.lt_iff_toNat_lt.2 (by omega)
    rw [continuity_of_related hrelated, compare_gt_iff_gt.2 hlt]
    simp [hnext.2 hrevision, hprevious]

/-! ### Runs of a client -/

/-- A binding and the signed bytes it is read from, as `open` returns it under any key. -/
structure Seen where
  bytes : List UInt8
  binding : Binding
  peek_eq : Binding.peek bytes = .ok binding

/-- The bytes determine the binding. -/
theorem Seen.eq_of_bytes {a b : Seen} (h : a.bytes = b.bytes) : a = b := by
  obtain ⟨bytes, binding, hpeek⟩ := a
  obtain ⟨bytes', binding', hpeek'⟩ := b
  obtain rfl : bytes = bytes' := h
  obtain rfl : binding = binding' := Except.ok.inj (hpeek.symm.trans hpeek')
  rfl

/-- A client: the binding it has seen last, and those it has gone through, newest first. -/
structure Client where
  current : Seen
  history : List Seen

variable (sha)

/-- How a binding relates to the last one of the client. -/
def Seen.continuity (a b : Seen) : Continuity :=
  Control.continuity sha a.binding a.bytes b.binding b.bytes

/-- Go on to the same binding or to the next one; the refusal is how the offered one relates. -/
def Client.accept (client : Client) (new : Seen) : Except Continuity Client :=
  match client.current.continuity sha new with
  | .same => .ok ⟨new, client.history⟩
  | .newer true => .ok ⟨new, new :: client.history⟩
  | other => .error other

/-- A client that starts at a binding and accepts others in order. -/
def Client.run (first : Seen) (offered : List Seen) : Except Continuity Client :=
  offered.foldlM (accept sha) ⟨first, [first]⟩

/-- The history is linked: each binding has the next revision and names the hash of the signed bytes
of the one before it. -/
def LinkedHistory (history : List Seen) : Prop :=
  Linked (fun s : Seen ↦ digest sha s.bytes) (fun s ↦ s.binding.revision.toNat)
    (fun s ↦ s.binding.previous) history

variable {sha}

/-- A client goes on to the same binding or to the next one, and to nothing else. -/
theorem Client.accept_eq_ok_iff {client next : Client} {new : Seen} :
    client.accept sha new = .ok next ↔
      (client.current.continuity sha new = .same ∧ next = ⟨new, client.history⟩) ∨
      (client.current.continuity sha new = .newer true ∧ next = ⟨new, new :: client.history⟩) := by
  rw [accept]
  cases client.current.continuity sha new with
  | newer adjacent => cases adjacent <;> simp [eq_comm]
  | _ => simp [eq_comm]

/-- What a client keeps: unless two of the documents it was offered collide, its history is linked and
ends in its current binding. -/
def Client.Sound (sha : Sha2) (all : List Seen) (client : Client) : Prop :=
  Collides sha.sha256 (all.map Seen.bytes) (all.map Seen.bytes) ∨
    ∃ older, client.history = client.current :: older ∧ LinkedHistory sha client.history ∧
      client.history ⊆ all

/-- **One step of a client keeps what it knows sound**: its history was handed out, one binding on top of the
other. -/
theorem Client.Sound.accept {all : List Seen} {client next : Client} {new : Seen} (hnew : new ∈ all)
    (hsound : client.Sound sha all) (h : client.accept sha new = .ok next) : next.Sound sha all := by
  obtain hcollides | ⟨older, hhistory, hlinked, hsub⟩ := hsound
  · exact .inl hcollides
  have hcurrent : client.current ∈ all := hsub (hhistory ▸ List.mem_cons_self)
  obtain ⟨hsame, rfl⟩ | ⟨hnewer, rfl⟩ := accept_eq_ok_iff.1 h
  · -- the same binding has the same bytes, or two documents of one hash were offered
    obtain ⟨-, -, hdigest⟩ := continuity_eq_same_iff.1 hsame
    obtain hbytes | hcollides := Merkle.eq_or_collides
      (List.mem_map_of_mem hcurrent) (List.mem_map_of_mem hnew) hdigest
    · obtain rfl := Seen.eq_of_bytes hbytes
      exact .inr ⟨older, hhistory, hlinked, hsub⟩
    · exact .inl hcollides
  · obtain ⟨-, hrevision, hprevious⟩ := continuity_eq_newer_true_iff.1 hnewer
    refine .inr ⟨client.history, rfl, ?_, List.cons_subset.2 ⟨hnew, hsub⟩⟩
    rw [LinkedHistory, hhistory] at hlinked ⊢
    exact .next hrevision hprevious hlinked

/-- **The history of a client is linked**, or two of the documents it was offered collide. -/
theorem Client.run_linked {first : Seen} {offered : List Seen} {client : Client}
    (hfirst : first.binding.revision = 0) (h : run sha first offered = .ok client) :
    client.Sound sha (first :: offered) := by
  have hinv := Except.foldlM_invariant (P := Client.Sound sha (first :: offered)) h
  refine hinv (.inr ⟨[], rfl, .first ?_, ?_⟩) fun new hnew _ _ hsound hstep ↦
    hsound.accept (List.mem_cons_of_mem _ hnew) hstep
  · rw [hfirst]
    rfl
  · exact List.cons_subset.2 ⟨List.mem_cons_self, List.nil_subset _⟩

/-- **The head of a history determines it.** -/
theorem Client.history_eq_of_head {first first' : Seen} {offered offered' : List Seen}
    {client client' : Client} (hfirst : first.binding.revision = 0)
    (hfirst' : first'.binding.revision = 0) (h : run sha first offered = .ok client)
    (h' : run sha first' offered' = .ok client') (hhead : client.current.bytes = client'.current.bytes) :
    client.history.map Seen.bytes = client'.history.map Seen.bytes ∨
      Collides sha.sha256 ((first :: offered ++ first' :: offered').map Seen.bytes)
        ((first :: offered ++ first' :: offered').map Seen.bytes) := by
  have hleft : first :: offered ⊆ first :: offered ++ first' :: offered' := List.subset_append_left _ _
  have hright : first' :: offered' ⊆ first :: offered ++ first' :: offered' :=
    List.subset_append_right _ _
  obtain hcollides | ⟨older, hhistory, hlinked, hsub⟩ := run_linked hfirst h
  · exact .inr (hcollides.mono (List.map_subset _ hleft) (List.map_subset _ hleft))
  obtain hcollides | ⟨older', hhistory', hlinked', hsub'⟩ := run_linked hfirst' h'
  · exact .inr (hcollides.mono (List.map_subset _ hright) (List.map_subset _ hright))
  rw [hhistory] at hlinked hsub ⊢
  rw [hhistory', ← Seen.eq_of_bytes hhead] at hlinked' hsub' ⊢
  obtain rfl | ⟨x, hx, y, hy, hne, heq⟩ := hlinked.tail_eq hlinked'
  · exact .inl rfl
  · refine .inr ⟨x.bytes, List.mem_map_of_mem (hleft (hsub (List.mem_cons_of_mem _ hx))), y.bytes,
      List.mem_map_of_mem (hright (hsub' (List.mem_cons_of_mem _ hy))), ?_, heq⟩
    exact fun hbytes ↦ hne (Seen.eq_of_bytes hbytes)

/-- **The history of a binding is determined by its head.** -/
theorem binding_history_determined (sha : Sha2) :
    (∀ a b : Seen, a.continuity sha b = .newer true →
      b.binding.revision.toNat = a.binding.revision.toNat + 1 ∧ Related a.binding b.binding) ∧
    (∀ (first first' : Seen) (offered offered' : List Seen) (client client' : Client),
      first.binding.revision = 0 → first'.binding.revision = 0 →
      Client.run sha first offered = .ok client → Client.run sha first' offered' = .ok client' →
      client.current.bytes = client'.current.bytes →
      client.history.map Seen.bytes = client'.history.map Seen.bytes ∨
        Collides sha.sha256 ((first :: offered ++ first' :: offered').map Seen.bytes)
          ((first :: offered ++ first' :: offered').map Seen.bytes)) ∧
    (∀ (a b : Binding) (aBytes bBytes : List UInt8),
      (∃ adjacent, continuity sha a aBytes b bBytes = .newer adjacent) ∨
        (continuity sha a aBytes b bBytes = .fork ∧ a.revision < b.revision) →
      continuity sha b bBytes a aBytes = .rollback) ∧
    ∀ (a b : Binding) (aBytes bBytes : List UInt8),
      continuity sha a aBytes b bBytes = .same ↔ continuity sha b bBytes a aBytes = .same := by
  refine ⟨?_, ?_, ?_, ?_⟩
  · intro a b h
    obtain ⟨hrelated, hrevision, -⟩ := continuity_eq_newer_true_iff.1 h
    exact ⟨hrevision, hrelated⟩
  · intro first first' offered offered' client client' hfirst hfirst' h h' hhead
    exact Client.history_eq_of_head hfirst hfirst' h h' hhead
  -- an earlier binding is a rollback from a later one, adjacent or not
  · rintro a b aBytes bBytes (⟨adjacent, h⟩ | ⟨hfork, hlt⟩)
    · obtain ⟨hrelated, hlt⟩ := revision_lt_of_newer h
      exact continuity_eq_rollback_iff.2 ⟨hrelated.symm, hlt⟩
    · exact continuity_eq_rollback_iff.2 ⟨(related_of_continuity hfork nofun).symm, hlt⟩
  · intro a b aBytes bBytes
    rw [continuity_eq_same_iff, continuity_eq_same_iff]
    exact ⟨fun h ↦ ⟨h.1.symm, h.2.1.symm, h.2.2.symm⟩, fun h ↦ ⟨h.1.symm, h.2.1.symm, h.2.2.symm⟩⟩

end Control

end OpenCrate.Protocol
