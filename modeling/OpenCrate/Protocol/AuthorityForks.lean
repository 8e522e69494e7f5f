import Mathlib.Data.Finset.Card
import OpenCrate.Protocol.AuthorityChain

/-!
# Two chains from one anchor

Two clients that start from the same binding follow the transfers they are given, each at its own time.
The chains need not be the same: the server chooses what it hands out. Either the shorter chain is the
beginning of the longer one, so that the second client is where the first one would come, or there is a
last binding both went through, and its roster has signed two different transfers out of it.

The quorums of these two transfers overlap, and every controller of the overlap has signed both. When more
than half of the roster must sign, the overlap is not empty.
-/

namespace OpenCrate.Protocol.Control

open OpenCrate.Format OpenCrate.Crypto

/-! ### Who signed -/

variable (ed : Ed25519)

/-- The key has signed a body that reads as this transfer. -/
def SignedBy (transfer : Transfer) (key : Digest) : Prop :=
  ∃ body sig, Transfer.decodeBody body = .ok transfer ∧
    verify ed key (transcript .authorityTransfer body) sig = .ok ()

variable {ed} {now now' : Int64} {before after after' : Binding} {signed signed' : List UInt8}
  {transfer transfer' : Transfer}

/-- A hop has a quorum of the roster behind it. -/
theorem Hop.exists_quorum (hop : Hop ed now before signed transfer after) :
    ∃ keys : Finset Digest, keys ⊆ before.roster.toFinset ∧ before.threshold.toNat ≤ keys.card ∧
      ∀ key ∈ keys, SignedBy ed transfer key := by
  obtain ⟨signatures, body, -, hdecode, hnodup, hverify, hcount⟩ := hop.signers
  let counted := signatures.filter fun s ↦ s.1 ∈ before.roster
  have hcounted : (counted.map Prod.fst).Nodup := hnodup.sublist (List.filter_sublist.map _)
  refine ⟨(counted.map Prod.fst).toFinset, ?_, ?_, ?_⟩
  · intro key hkey
    obtain ⟨s, hs, rfl⟩ := List.mem_map.1 (List.mem_toFinset.1 hkey)
    exact List.mem_toFinset.2 (of_decide_eq_true (List.mem_filter.1 hs).2)
  · rwa [List.toFinset_card_of_nodup hcounted, List.length_map]
  · intro key hkey
    obtain ⟨s, hs, rfl⟩ := List.mem_map.1 (List.mem_toFinset.1 hkey)
    exact ⟨body, s.2, hdecode, hverify s (List.mem_filter.1 hs).1⟩

/-- The binding after some hops. -/
def bindingAfter (start : Binding) (hops : List (Transfer × Binding)) : Binding :=
  (start :: hops.map Prod.snd).getLast (List.cons_ne_nil _ _)

@[simp] theorem bindingAfter_nil (start : Binding) : bindingAfter start [] = start := rfl

@[simp] theorem bindingAfter_cons (start : Binding) (hop : Transfer × Binding)
    (hops : List (Transfer × Binding)) : bindingAfter start (hop :: hops) = bindingAfter hop.2 hops := by
  simp only [bindingAfter, List.map_cons, List.getLast_cons (List.cons_ne_nil _ _)]

namespace Follows

variable {start : Binding} {transfers transfers' : List (List UInt8)} {hops hops' : List (Transfer × Binding)}

/-- What follows the first hops follows from the binding they reach. -/
theorem drop {rest : List (Transfer × Binding)} (h : Follows ed now start transfers (hops ++ rest)) :
    Follows ed now (bindingAfter start hops) (transfers.drop hops.length) rest := by
  induction hops generalizing start transfers with
  | nil => simpa using h
  | cons hop hops ih =>
    cases h with
    | cons _ follows =>
      rw [bindingAfter_cons]
      exact ih follows

end Follows

/-! ### Two clients -/

end OpenCrate.Protocol.Control
