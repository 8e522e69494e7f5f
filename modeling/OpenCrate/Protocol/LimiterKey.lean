import OpenCrate.Protocol.Attenuation
import OpenCrate.Protocol.SignedDocuments

/-!
# The bucket of a rule

The server counts the executions of a rule in a bucket whose name is the kind of the rule and the bytes of
its constraint (`limiter_key` of `action`). Two rules share a bucket exactly if they are of one kind and one
constraint, and a rule keeps its bucket when its grant is read and written again.
-/

namespace OpenCrate.Protocol.Action

open OpenCrate.Format OpenCrate.Crypto

/-- Rule key for counting executions: kind and constraint bytes. -/
def limiterKey (rule : ActionRule) : Except FormatError (List UInt8) := do
  let constraint ← encodeConstraint rule.constraint
  .ok (toLeBytes rule.kind.asU16 ++ constraint)

/-- The key of a bucket is the kind of the rule and its limit. -/
theorem limiterKey_eq_ok_iff {rule : ActionRule} {key : List UInt8} :
    limiterKey rule = .ok key ↔
      ∃ limit, encodeConstraint rule.constraint = .ok limit ∧ key = toLeBytes rule.kind.asU16 ++ limit := by
  simp only [limiterKey, Except.bind_eq_ok_iff, Except.ok.injEq, eq_comm (b := key)]

/-- A rule of the right shape has a key. -/
theorem exists_limiterKey {rule : ActionRule} (h : checkRuleShape rule = .ok ()) :
    ∃ key, limiterKey rule = .ok key := by
  obtain ⟨limit, hlimit, -⟩ := exists_encodeConstraint (Except.check_bind_eq_ok_iff.mp h).2
  exact ⟨_, limiterKey_eq_ok_iff.mpr ⟨limit, hlimit, rfl⟩⟩

/-- The bytes of a key are those that the signed body of the grant has for the rule. -/
theorem limiterKey_of_encodeRule {rule : ActionRule} {bytes : List UInt8} (h : encodeRule rule = .ok bytes) :
    ∃ limit, Encodes bytes (ruleContents rule limit) ∧
      limiterKey rule = .ok (toLeBytes rule.kind.asU16 ++ limit) := by
  obtain ⟨-, limit, hlimit, henc⟩ := encodeRule_eq_ok_iff.mp h
  exact ⟨limit, henc, limiterKey_eq_ok_iff.mpr ⟨limit, hlimit, rfl⟩⟩

/-- A kind is known from its number. -/
theorem asU16_injective : Function.Injective ActionKind.asU16 := by
  intro a b h
  have hread := fromU16_asU16 a 0
  rw [h, fromU16_asU16] at hread
  exact (Except.ok.inj hread).symm

/-- Constraints of one kind that are written alike are the same. -/
theorem eq_of_encodeConstraint_eq {a b : Constraint} {bytes : List UInt8} (hkind : a.kind = b.kind)
    (ha : encodeConstraint a = .ok bytes) (hb : encodeConstraint b = .ok bytes) : a = b := by
  obtain ⟨hshapeA, hencA⟩ := encodeConstraint_eq_ok_iff.mp ha
  obtain ⟨hshapeB, hencB⟩ := encodeConstraint_eq_ok_iff.mp hb
  have hreadA := decodeConstraint_contents hshapeA hencA
  rw [hkind, decodeConstraint_contents hshapeB hencB] at hreadA
  exact (Except.ok.inj hreadA).symm

/-- **Two rules share a bucket exactly if they are of one kind and one constraint.** -/
theorem limiterKey_eq_iff {a b : ActionRule} (ha : checkRuleShape a = .ok ())
    (hb : checkRuleShape b = .ok ()) :
    limiterKey a = limiterKey b ↔ a.kind = b.kind ∧ a.constraint = b.constraint := by
  constructor
  · intro h
    obtain ⟨key, hkey⟩ := exists_limiterKey ha
    obtain ⟨limitA, hlimitA, rfl⟩ := limiterKey_eq_ok_iff.mp hkey
    obtain ⟨limitB, hlimitB, hbytes⟩ := limiterKey_eq_ok_iff.mp (h.symm.trans hkey)
    -- the kind takes two bytes, so it can be told from the constraint
    obtain ⟨hkind, rfl⟩ := List.append_inj hbytes (by rw [length_toLeBytes, length_toLeBytes])
    have hkind := asU16_injective (toLeBytes_injective hkind)
    refine ⟨hkind, eq_of_encodeConstraint_eq ?_ hlimitA hlimitB⟩
    rw [← kind_eq_of_checkRuleShape ha, ← kind_eq_of_checkRuleShape hb, hkind]
  · rintro ⟨hkind, hconstraint⟩
    rw [limiterKey, limiterKey, hkind, hconstraint]

/-- What is read of a grant that was written is that grant. -/
theorem eq_of_decodeGrant_encodeGrant {ed : Ed25519} {grant read : ActionGrant} {bytes : List UInt8}
    {authorKey : Digest} (hwritten : encodeGrant grant = .ok bytes)
    (hread : decodeGrant ed bytes authorKey = .ok read) : read = grant := by
  obtain ⟨body, hbody, hbytes⟩ := Except.bind_eq_ok_iff.mp hwritten
  obtain rfl := Except.ok.inj hbytes
  obtain ⟨signature, body', hsplit, -, hdecode, -⟩ := verified_named_eq_ok_iff.mp hread
  obtain ⟨hsignature, rfl⟩ := List.append_inj hsplit
    (by rw [List.Vector.toList_length, List.Vector.toList_length])
  obtain rfl := List.Vector.toList_injective hsignature
  exact Except.ok.inj (hdecode.symm.trans (decodeGrantBody_grantBody hbody))

/-- **A key names the bucket of a rule.** Rules share it exactly if they are of one kind and one constraint.
The rules that the reader lets through have keys, and their grant, written again, is read with the same
ones; so is every grant that was written. -/
theorem limiterKey_names_bucket (ed : Ed25519) :
    (∀ a b : ActionRule, checkRuleShape a = .ok () → checkRuleShape b = .ok () →
      (limiterKey a = limiterKey b ↔ a.kind = b.kind ∧ a.constraint = b.constraint)) ∧
    (∀ rule : ActionRule, checkRuleShape rule = .ok () → ∃ key, limiterKey rule = .ok key) ∧
    (∀ bytes authorKey grant, decodeGrant ed bytes authorKey = .ok grant →
      (∀ rule ∈ grant.rules, ∃ key, limiterKey rule = .ok key) ∧
      ∃ body, encodeGrant grant = .ok (grant.signature.toList ++ body) ∧
        (∃ again, decodeGrantBody grant.signature body = .ok again ∧
          again.rules.map limiterKey = grant.rules.map limiterKey) ∧
        ∀ authorKey' again, decodeGrant ed (grant.signature.toList ++ body) authorKey' = .ok again →
          again.rules.map limiterKey = grant.rules.map limiterKey) ∧
    ∀ grant bytes, encodeGrant grant = .ok bytes → ∀ authorKey read,
      decodeGrant ed bytes authorKey = .ok read →
      read.rules.map limiterKey = grant.rules.map limiterKey := by
  refine ⟨fun a b ↦ limiterKey_eq_iff, fun rule ↦ exists_limiterKey, fun bytes authorKey grant h ↦ ?_,
    fun grant bytes hwritten authorKey read hread ↦ ?_⟩
  · obtain ⟨body, -, hback, hwritten, -⟩ := (law_grantCodec ed).rewrite h
    refine ⟨fun rule hrule ↦ exists_limiterKey (checkRuleShape_of_decodeGrant h rule hrule), body, hwritten,
      ⟨grant, hback, rfl⟩, fun authorKey' again hagain ↦ ?_⟩
    rw [eq_of_decodeGrant_encodeGrant hwritten hagain]
  · rw [eq_of_decodeGrant_encodeGrant hwritten hread]

/-- Two subtrees have two buckets, another limit has the same one, and the rules of the sample grant keep
theirs. -/
theorem limiterKey_names_bucket_sample :
    limiterKey (Agent.removeRule "src" 3 true) ≠ limiterKey (Agent.removeRule "docs" 3 true) ∧
      limiterKey (Agent.removeRule "src" 3 true) = limiterKey (Agent.removeRule "src" 0 false) ∧
      (∃ key, limiterKey (Agent.removeRule "src" 3 true) = .ok key) ∧
      (∃ body, encodeGrant Agent.sampleActions = .ok (Agent.sampleActions.signature.toList ++ body)) ∧
      ∀ authorKey read, decodeGrant Agent.chainEd25519 Agent.sampleActionsBytes authorKey = .ok read →
        read.rules.map limiterKey = Agent.sampleActions.rules.map limiterKey := by
  obtain ⟨hbucket, hdefined, hread, hwritten⟩ := limiterKey_names_bucket Agent.chainEd25519
  have hsrc : checkRuleShape (Agent.removeRule "src" 3 true) = .ok () := by decide +kernel
  have hdocs : checkRuleShape (Agent.removeRule "docs" 3 true) = .ok () := by decide +kernel
  have hother : checkRuleShape (Agent.removeRule "src" 0 false) = .ok () := by decide +kernel
  have hgrant : decodeGrant Agent.chainEd25519 Agent.sampleActionsBytes Agent.sampleAuthor =
      .ok Agent.sampleActions := by
    decide +kernel
  obtain ⟨-, body, hbody, -⟩ := hread _ _ _ hgrant
  refine ⟨fun h ↦ ?_, (hbucket _ _ hsrc hother).mpr ⟨rfl, rfl⟩, hdefined _ hsrc, ⟨body, hbody⟩,
    hwritten _ _ (by decide +kernel)⟩
  exact absurd ((hbucket _ _ hsrc hdocs).mp h).2 (by decide)

end OpenCrate.Protocol.Action
