import OpenCrate.Format.HeaderParts
import OpenCrate.Protocol.Action

/-!
# The codec of action grants

An action grant is a signature before a body, and is verified before it is parsed. A rule is a nested
record; the tags of its constraint depend on its kind, which is read first and checked again after
the parsing. What the reader lets through has the shape that the writer asks for
(`checkRuleShape_of_decodeGrant`).
-/

namespace OpenCrate.Protocol

open OpenCrate.Format OpenCrate.Crypto
open Except (refuseIf okOr)

/-- The signature before a document, and the body behind it. -/
def splitSignature (bytes : List UInt8) : Except FormatError (Signature × List UInt8) := do
  let signature ← okOr ((slice? bytes 0 signatureLen).bind (toVector? signatureLen))
    .badHeaderSignature
  .ok (signature, bytes.drop signatureLen)

theorem splitSignature_eq_ok_iff {bytes body : List UInt8} {signature : Signature} :
    splitSignature bytes = .ok (signature, body) ↔ bytes = signature.toList ++ body := by
  rw [splitSignature, Except.bind_eq_ok_iff]
  constructor
  · rintro ⟨v, hv, heq⟩
    obtain ⟨rfl, rfl⟩ := Prod.mk.inj (Except.ok.inj heq)
    obtain ⟨part, hpart, hv⟩ := Option.bind_eq_some_iff.mp (Except.okOr_eq_ok_iff.mp hv)
    rw [toVector?_eq_some_iff] at hv
    subst hv
    exact (drop_eq_append_of_slice? hpart).1
  · rintro rfl
    have hlen : signature.toList.length = signatureLen := signature.toList_length
    have hslice : slice? (signature.toList ++ body) 0 signatureLen = some signature.toList := by
      have happend := slice?_append [] signature.toList body
      rwa [hlen] at happend
    refine ⟨signature, ?_, by rw [← hlen, List.drop_left]⟩
    exact Except.okOr_eq_ok_iff.mpr
      (Option.bind_eq_some_iff.mpr ⟨_, hslice, toVector?_eq_some_iff.mpr rfl⟩)

namespace Action

/-! ### Constraints -/

/-- Field value as text. -/
def text (field : Field) (tag : UInt16) : Except FormatError String :=
  okOr (fromUtf8? field.value) (.notUtf8 tag)

/-- The bytes of a method list. -/
def encodeMethods (methods : List Method) : List UInt8 := methods.map Method.asU8

/-- A method list from its bytes. -/
def decodeMethods (bytes : List UInt8) (tag : UInt16) : Except FormatError (List Method) := do
  let methods ← bytes.mapM fun b ↦ Method.fromU8 b tag
  checkMethods methods tag
  .ok methods

/-- The bytes of a constraint. -/
def encodeConstraint (limit : Constraint) : Except FormatError (List UInt8) := do
  checkConstraintShape limit
  match limit with
  | .gitPush remote branch => do
    let w ← TlvWriter.new.put FieldTag.remote (utf8 remote)
    let w ← w.put FieldTag.branch (utf8 branch)
    .ok w.finish
  | .treeRemove treePrefix => do
    let w ← TlvWriter.new.put FieldTag.path (utf8 treePrefix)
    .ok w.finish
  | .treeRename fromPrefix toPrefix => do
    let w ← TlvWriter.new.put FieldTag.source (utf8 fromPrefix)
    let w ← w.put FieldTag.target (utf8 toPrefix)
    .ok w.finish
  | .httpRequest host methods pathPrefix secretRef => do
    let w ← TlvWriter.new.put FieldTag.host (utf8 host)
    let w ← w.put FieldTag.methods (encodeMethods methods)
    let w ← w.put FieldTag.pathPrefix (utf8 pathPrefix)
    let w ← w.putOpt FieldTag.secretRef (secretRef.map utf8)
    .ok w.finish

/-- The constraint read so far. -/
structure ConstraintReading where
  remote : Option String := none
  branch : Option String := none
  path : Option String := none
  source : Option String := none
  target : Option String := none
  host : Option String := none
  methods : Option (List Method) := none
  pathPrefix : Option String := none
  secretRef : Option String := none

/-- One field of a constraint. What the kind does not expect is an unknown tag, even if another kind
knows it. -/
def decodeConstraintStep (kind : ActionKind) (acc : ConstraintReading) (f : Field) :
    Except FormatError ConstraintReading :=
  match kind, f.tag with
  | .gitPush, 1 => (text f FieldTag.remote).map fun v ↦ { acc with remote := some v }
  | .gitPush, 2 => (text f FieldTag.branch).map fun v ↦ { acc with branch := some v }
  | .treeRemove, 3 => (text f FieldTag.path).map fun v ↦ { acc with path := some v }
  | .treeRename, 4 => (text f FieldTag.source).map fun v ↦ { acc with source := some v }
  | .treeRename, 5 => (text f FieldTag.target).map fun v ↦ { acc with target := some v }
  | .httpRequest, 6 => (text f FieldTag.host).map fun v ↦ { acc with host := some v }
  | .httpRequest, 7 =>
    (decodeMethods f.value FieldTag.methods).map fun v ↦ { acc with methods := some v }
  | .httpRequest, 8 => (text f FieldTag.pathPrefix).map fun v ↦ { acc with pathPrefix := some v }
  | .httpRequest, 9 => (text f FieldTag.secretRef).map fun v ↦ { acc with secretRef := some v }
  | _, other => skipUnknown other acc

/-- The constraint of a kind that was read. -/
def ConstraintReading.limit (acc : ConstraintReading) : ActionKind → Except FormatError Constraint
  | .gitPush => do
    let remote ← okOr acc.remote (.missingField FieldTag.remote)
    let branch ← okOr acc.branch (.missingField FieldTag.branch)
    .ok (.gitPush remote branch)
  | .treeRemove => do
    let path ← okOr acc.path (.missingField FieldTag.path)
    .ok (.treeRemove path)
  | .treeRename => do
    let source ← okOr acc.source (.missingField FieldTag.source)
    let target ← okOr acc.target (.missingField FieldTag.target)
    .ok (.treeRename source target)
  | .httpRequest => do
    let host ← okOr acc.host (.missingField FieldTag.host)
    let methods ← okOr acc.methods (.missingField FieldTag.methods)
    let pathPrefix ← okOr acc.pathPrefix (.missingField FieldTag.pathPrefix)
    .ok (.httpRequest host methods pathPrefix acc.secretRef)

/-- Parse a constraint of a kind. -/
def decodeConstraint (bytes : List UInt8) (kind : ActionKind) : Except FormatError Constraint := do
  let acc ← TlvReader.foldFields (decodeConstraintStep kind) (TlvReader.new bytes) {}
  let limit ← acc.limit kind
  checkConstraintShape limit
  .ok limit

/-! ### Rules -/

/-- A flag is exactly zero or one. -/
def flag (value : UInt8) (tag : UInt16) : Except FormatError Bool :=
  match value with
  | 0 => .ok false
  | 1 => .ok true
  | _ => .error (.badFieldLength tag 1)

/-- The bytes of a rule. -/
def encodeRule (rule : ActionRule) : Except FormatError (List UInt8) := do
  checkRuleShape rule
  let w ← TlvWriter.new.put RuleTag.kind (toLeBytes rule.kind.asU16)
  let limit ← encodeConstraint rule.constraint
  let w ← w.put RuleTag.constraint limit
  let w ← w.put RuleTag.maxUses (toLeBytes rule.maxUses)
  let w ← w.put RuleTag.confirm [rule.confirm.toUInt8]
  let w ← w.put RuleTag.delegable [rule.delegable.toUInt8]
  .ok w.finish

/-- The rule read so far; the constraint waits for its kind. -/
structure RuleReading where
  kind : Option ActionKind := none
  rawLimit : Option (List UInt8) := none
  maxUses : Option UInt32 := none
  confirm : Option Bool := none
  delegable : Option Bool := none

/-- One field of a rule, by the tags of `RuleTag`. -/
def decodeRuleStep (acc : RuleReading) (f : Field) : Except FormatError RuleReading :=
  match f.tag with
  | 1 => do
    let number ← f.u16
    let kind ← ActionKind.fromU16 number RuleTag.kind
    .ok { acc with kind := some kind }
  | 2 => .ok { acc with rawLimit := some f.value }
  | 3 => f.u32.map fun v ↦ { acc with maxUses := some v }
  | 4 => do
    let value ← f.u8
    let confirm ← flag value RuleTag.confirm
    .ok { acc with confirm := some confirm }
  | 5 => do
    let value ← f.u8
    let delegable ← flag value RuleTag.delegable
    .ok { acc with delegable := some delegable }
  | other => skipUnknown other acc

/-- Parse a rule. -/
def decodeRule (bytes : List UInt8) : Except FormatError ActionRule := do
  let acc ← TlvReader.foldFields decodeRuleStep (TlvReader.new bytes) {}
  let kind ← okOr acc.kind (.missingField RuleTag.kind)
  let rawLimit ← okOr acc.rawLimit (.missingField RuleTag.constraint)
  let constraint ← decodeConstraint rawLimit kind
  let maxUses ← okOr acc.maxUses (.missingField RuleTag.maxUses)
  let confirm ← okOr acc.confirm (.missingField RuleTag.confirm)
  let delegable ← okOr acc.delegable (.missingField RuleTag.delegable)
  let rule : ActionRule := ⟨kind, constraint, maxUses, confirm, delegable⟩
  checkRuleShape rule
  .ok rule

/-- The record of a rule: its number and its bytes. -/
def ruleRecord (index : ℕ) (rule : ActionRule) : Except FormatError (UInt16 × List UInt8) := do
  let tag ← indexTag index
  let bytes ← encodeRule rule
  .ok (tag, bytes)

/-- Rule list: nested records numbered by position. -/
def encodeRules (rules : List ActionRule) : Except FormatError (List UInt8) := do
  refuseIf (maxActionRules < rules.length) (.badFieldLength ActionGrantTag.rules rules.length)
  TlvWriter.writeEach ruleRecord rules

/-- Parse a rule list; the limit is checked before each rule. -/
def decodeRules (bytes : List UInt8) : Except FormatError (List ActionRule) :=
  TlvReader.collect maxActionRules (.badFieldLength ActionGrantTag.rules) decodeRule bytes []

/-! ### Grants -/

/-- The shape of an action grant, checked on writing and on reading. -/
def checkGrantShape (grant : ActionGrant) : Except FormatError Unit := do
  refuseIf (maxActionRules < grant.rules.length)
    (.badFieldLength ActionGrantTag.rules grant.rules.length)
  grant.rules.forM checkRuleShape
  refuseIf (grant.expiresAt < grant.issuedAt) (.badFieldLength ActionGrantTag.expiresAt 8)

/-- Action grant bytes without the signature. -/
def grantBody (grant : ActionGrant) : Except FormatError (List UInt8) := do
  checkGrantShape grant
  let w ← TlvWriter.new.put ActionGrantTag.grantId grant.grantId.toList
  let rules ← encodeRules grant.rules
  let w ← w.put ActionGrantTag.rules rules
  let w ← w.put ActionGrantTag.issuedAt (toLeBytes grant.issuedAt)
  let w ← w.put ActionGrantTag.expiresAt (toLeBytes grant.expiresAt)
  let w ← w.put ActionGrantTag.authorKey grant.authorKey.toList
  .ok w.finish

/-- Action grant signature transcript. -/
def grantTranscript (body : List UInt8) : Transcript := (Transcript.new .actionGrant).field body

/-- Encode the complete grant: the signature and the body. -/
def encodeGrant (grant : ActionGrant) : Except FormatError (List UInt8) := do
  let body ← grantBody grant
  .ok (grant.signature.toList ++ body)

/-- The grant read so far. -/
structure GrantReading where
  grantId : Option (List.Vector UInt8 16) := none
  rules : Option (List ActionRule) := none
  issuedAt : Option Int64 := none
  expiresAt : Option Int64 := none
  authorKey : Option Digest := none

/-- One field of a grant, by the tags of `ActionGrantTag`. -/
def decodeGrantStep (acc : GrantReading) (f : Field) : Except FormatError GrantReading :=
  match f.tag with
  | 1 => (f.array 16).map fun v ↦ { acc with grantId := some v }
  | 2 => (decodeRules f.value).map fun v ↦ { acc with rules := some v }
  | 3 => f.le.map fun v ↦ { acc with issuedAt := some v }
  | 4 => f.le.map fun v ↦ { acc with expiresAt := some v }
  | 5 => (f.array 32).map fun v ↦ { acc with authorKey := some v }
  | other => skipUnknown other acc

/-- Parse a grant body; the signature lies outside it. -/
def decodeGrantBody (signature : Signature) (body : List UInt8) :
    Except FormatError ActionGrant := do
  let acc ← TlvReader.foldFields decodeGrantStep (TlvReader.new body) {}
  let grantId ← okOr acc.grantId (.missingField ActionGrantTag.grantId)
  let rules ← okOr acc.rules (.missingField ActionGrantTag.rules)
  let issuedAt ← okOr acc.issuedAt (.missingField ActionGrantTag.issuedAt)
  let expiresAt ← okOr acc.expiresAt (.missingField ActionGrantTag.expiresAt)
  let authorKey ← okOr acc.authorKey (.missingField ActionGrantTag.authorKey)
  let grant : ActionGrant := ⟨grantId, rules, issuedAt, expiresAt, authorKey, signature⟩
  checkGrantShape grant
  .ok grant

variable (ed : Ed25519)

/-- Verify the author's signature, then parse: in this order only. -/
def decodeGrant (bytes : List UInt8) (authorKey : Digest) : Except FormatError ActionGrant := do
  let (signature, body) ← splitSignature bytes
  (verify ed authorKey (grantTranscript body) signature).mapError fun _ ↦ .badHeaderSignature
  let grant ← decodeGrantBody signature body
  refuseIf (grant.authorKey ≠ authorKey) (.badFieldLength ActionGrantTag.authorKey 32)
  .ok grant

variable {ed}

/-- **What the reader lets through has the shape of the writer.** -/
theorem checkRuleShape_of_decodeGrant {bytes : List UInt8} {authorKey : Digest}
    {grant : ActionGrant} (h : decodeGrant ed bytes authorKey = .ok grant) :
    ∀ rule ∈ grant.rules, checkRuleShape rule = .ok () := by
  simp only [decodeGrant, Except.bind_eq_ok_iff] at h
  obtain ⟨⟨signature, body⟩, -, -, -, grant', hbody, -, -, hgrant⟩ := h
  obtain rfl := Except.ok.inj hgrant
  simp only [decodeGrantBody, Except.bind_eq_ok_iff] at hbody
  obtain ⟨_, -, _, -, _, -, _, -, _, -, _, -, _, hshape, hgrant⟩ := hbody
  obtain rfl := Except.ok.inj hgrant
  obtain ⟨-, hshape⟩ := Except.check_bind_eq_ok_iff.mp hshape
  obtain ⟨hrules, -⟩ := Except.check_bind_eq_ok_iff.mp hshape
  exact Except.forM_eq_ok_iff.mp hrules

end Action

end OpenCrate.Protocol
