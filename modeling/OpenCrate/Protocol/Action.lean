import OpenCrate.Format.TlvCodec
import OpenCrate.Crypto.Kdf

/-!
# Action grants

`action` of `oc-protocol`: the rules of an author's action grant, when the arguments of one execution
lie within a rule (`argsWithin`), and when a rule is no broader than another one (`narrower`).

Rules are compared as documents, kind by kind, and executions are decided on arguments. What ties the
two together is that both compare paths by components: `narrower` is transitive on rules that the
reader accepts, and what lies within a rule lies within every rule it narrows.
-/

namespace OpenCrate.Protocol

open OpenCrate.Format OpenCrate.Crypto
open Except (refuseIf okOr)

/-- Signature length before the document. -/
def signatureLen : ℕ := 64

/-- Maximum rules in one action grant. -/
def maxActionRules : ℕ := 32

/-- Maximum short-name length. -/
def maxActionName : ℕ := 128

/-- Maximum path and path-prefix length. -/
def maxActionPath : ℕ := 512

/-- Maximum HTTP request body. -/
def maxBodyLen : UInt32 := 1024 * 1024

/-! ### Rules and arguments -/

/-- Action kind registry. -/
inductive ActionKind where
  | gitPush
  | treeRemove
  | treeRename
  | httpRequest
  deriving DecidableEq

namespace ActionKind

/-- Kind number on the wire. -/
def asU16 : ActionKind → UInt16
  | gitPush => 1
  | treeRemove => 2
  | treeRename => 3
  | httpRequest => 4

/-- Kind from its wire number. -/
def fromU16 (value tag : UInt16) : Except FormatError ActionKind :=
  match value with
  | 1 => .ok gitPush
  | 2 => .ok treeRemove
  | 3 => .ok treeRename
  | 4 => .ok httpRequest
  | _ => .error (.badFieldLength tag 2)

end ActionKind

/-- HTTP method. -/
inductive Method where
  | get
  | head
  | post
  | put
  | patch
  | delete
  deriving DecidableEq

namespace Method

/-- Method number on the wire. -/
def asU8 : Method → UInt8
  | get => 1
  | head => 2
  | post => 3
  | put => 4
  | patch => 5
  | delete => 6

/-- Method from its wire number. -/
def fromU8 (value : UInt8) (tag : UInt16) : Except FormatError Method :=
  match value with
  | 1 => .ok get
  | 2 => .ok head
  | 3 => .ok post
  | 4 => .ok put
  | 5 => .ok patch
  | 6 => .ok delete
  | _ => .error (.badFieldLength tag 1)

end Method

/-- Constraint: exactly what the door may request for this kind. -/
inductive Constraint where
  | gitPush (remote branch : String)
  | treeRemove (treePrefix : String)
  | treeRename (fromPrefix toPrefix : String)
  | httpRequest (host : String) (methods : List Method) (pathPrefix : String)
      (secretRef : Option String)
  deriving DecidableEq

/-- The kind to which a constraint belongs. -/
def Constraint.kind : Constraint → ActionKind
  | gitPush .. => .gitPush
  | treeRemove .. => .treeRemove
  | treeRename .. => .treeRename
  | httpRequest .. => .httpRequest

/-- One grant rule. -/
structure ActionRule where
  kind : ActionKind
  constraint : Constraint
  /-- Allowed executions; zero means unlimited. -/
  maxUses : UInt32
  confirm : Bool
  delegable : Bool
  deriving DecidableEq

/-- An author-signed action grant, bound to a file grant. -/
structure ActionGrant where
  grantId : List.Vector UInt8 16
  rules : List ActionRule
  issuedAt : Int64
  expiresAt : Int64
  authorKey : Digest
  signature : Signature
  deriving DecidableEq

/-- Arguments for one execution. -/
inductive Args where
  | gitPush (remote branch : String)
  | treeRemove (path : String)
  | treeRename (source target : String)
  | httpRequest (host : String) (method : Method) (path : String) (bodyDigest : Digest)
      (bodyLen : UInt32)
  deriving DecidableEq

/-- The kind to which arguments belong. -/
def Args.kind : Args → ActionKind
  | gitPush .. => .gitPush
  | treeRemove .. => .treeRemove
  | treeRename .. => .treeRename
  | httpRequest .. => .httpRequest

namespace ActionGrantTag

/-- Tag of the file grant. -/
def grantId : UInt16 := 1

/-- Tag of the rule list. -/
def rules : UInt16 := 2

/-- Tag of the issuance time. -/
def issuedAt : UInt16 := 3

/-- Tag of the expiration time. -/
def expiresAt : UInt16 := 4

/-- Tag of the author key. -/
def authorKey : UInt16 := 5

end ActionGrantTag

namespace RuleTag

/-- Tag of the kind. -/
def kind : UInt16 := 1

/-- Tag of the constraint. -/
def constraint : UInt16 := 2

/-- Tag of the limit of executions. -/
def maxUses : UInt16 := 3

/-- Tag of the approval flag. -/
def confirm : UInt16 := 4

/-- Tag of the delegation flag. -/
def delegable : UInt16 := 5

end RuleTag

namespace FieldTag

/-- Tag of a remote name. -/
def remote : UInt16 := 1

/-- Tag of a branch name. -/
def branch : UInt16 := 2

/-- Tag of a path in the tree. -/
def path : UInt16 := 3

/-- Tag of the source of a renaming. -/
def source : UInt16 := 4

/-- Tag of the target of a renaming. -/
def target : UInt16 := 5

/-- Tag of a host. -/
def host : UInt16 := 6

/-- Tag of the methods. -/
def methods : UInt16 := 7

/-- Tag of the path of a request. -/
def pathPrefix : UInt16 := 8

/-- Tag of a secret reference. -/
def secretRef : UInt16 := 9

end FieldTag

/-- What a refusal names. -/
inductive Limiter where
  | remote
  | branch
  | treePrefix
  | fromPrefix
  | toPrefix
  | host
  | methods
  | pathPrefix
  deriving DecidableEq

/-- Why arguments were rejected or narrowing failed. -/
inductive ActionRefusal where
  | wrongKind
  | notEqual (limiter : Limiter)
  | outsidePrefix (limiter : Limiter)
  | badPath (limiter : Limiter)
  | methodNotAllowed
  | bodyTooLarge (len : UInt32)
  | confirmNotDelegable
  | notDelegable
  | moreUses
  | widerLimiter (limiter : Limiter)
  | secretRefChanged
  deriving DecidableEq

/-! ### The shape of texts -/

/-- The separator of paths. -/
def slash : UInt8 := 0x2f

/-- Remote name characters: letters, digits, `-`, `_`, `.`. -/
def nameCharOk (c : UInt8) : Bool :=
  (0x61 ≤ c && c ≤ 0x7a) || (0x41 ≤ c && c ≤ 0x5a) || (0x30 ≤ c && c ≤ 0x39) ||
    c == 0x2d || c == 0x5f || c == 0x2e

/-- Every byte of a text passes a test; a refusal names the first one that does not. -/
def checkBytes (ok : UInt8 → Bool) (text : String) (tag : UInt16) : Except FormatError Unit :=
  match (utf8 text).find? fun b ↦ !ok b with
  | some byte => .error (.badAddressByte tag byte)
  | none => .ok ()

/-- A text is neither empty nor longer than the bound. -/
def checkTextLen (bound : ℕ) (text : String) (tag : UInt16) : Except FormatError Unit :=
  refuseIf ((utf8 text).length = 0 ∨ bound < (utf8 text).length)
    (.badFieldLength tag (utf8 text).length)

/-- A short name with a wire representation. -/
def checkName (text : String) (tag : UInt16) : Except FormatError Unit := do
  checkTextLen maxActionName text tag
  checkBytes nameCharOk text tag
  refuseIf ((utf8 text).head? = some 0x2d) (.badAddressByte tag 0x2d)

/-- Hostname: lowercase letters, digits, `-`, dots between labels. -/
def checkHost (text : String) (tag : UInt16) : Except FormatError Unit := do
  checkTextLen maxActionName text tag
  checkBytes (fun b ↦ (0x61 ≤ b && b ≤ 0x7a) || (0x30 ≤ b && b ≤ 0x39) || b == 0x2d || b == 0x2e)
    text tag
  refuseIf (((utf8 text).splitOn 0x2e).any fun label ↦
      label.isEmpty || label.head? == some 0x2d || label.getLast? == some 0x2d)
    (.badAddressByte tag 0x2e)

/-- Secret reference name: uppercase letters, digits, `_`. -/
def checkSecretRef (text : String) (tag : UInt16) : Except FormatError Unit := do
  checkTextLen maxActionName text tag
  checkBytes (fun b ↦ (0x41 ≤ b && b ≤ 0x5a) || (0x30 ≤ b && b ≤ 0x39) || b == 0x5f) text tag

/-- Path components: pieces between separators, dropping empty ones. -/
def components (path : List UInt8) : List (List UInt8) :=
  (path.splitOn slash).filter fun part ↦ !part.isEmpty

/-- Shared component rule: nonempty, and neither `.` nor `..`. -/
def checkPathParts (text : List UInt8) (tag : UInt16) : Except FormatError Unit :=
  refuseIf ((text.splitOn slash).any fun part ↦
      part.isEmpty || part == [0x2e] || part == [0x2e, 0x2e])
    (.badAddressByte tag 0x2e)

/-- Validate a relative tree path. -/
def checkTreePath (text : String) (tag : UInt16) : Except FormatError Unit := do
  checkTextLen maxActionPath text tag
  checkBytes (fun b ↦ nameCharOk b || b == slash) text tag
  refuseIf ((utf8 text).head? = some slash) (.badAddressByte tag slash)
  checkPathParts (utf8 text) tag

/-- HTTP path: begins with `/`, then follows the same component rules. -/
def checkHttpPath (text : String) (tag : UInt16) : Except FormatError Unit := do
  checkTextLen maxActionPath text tag
  checkBytes (fun b ↦ nameCharOk b || b == slash || b == 0x7e || b == 0x25) text tag
  match utf8 text with
  | first :: rest =>
    if first = slash then
      -- exactly the root has no components
      if rest = [] then .ok () else checkPathParts rest tag
    else .error (.badAddressByte tag slash)
  | [] => .error (.badAddressByte tag slash)

/-- Whether the components are followed by the wanted ones. -/
def componentsUnder : List (List UInt8) → List (List UInt8) → Bool
  | [], _ => true
  | want :: wants, part :: parts => if part = want then componentsUnder wants parts else false
  | _ :: _, [] => false

/-- Whether a path lies under another one, by components. -/
def pathUnder (above path : String) : Bool :=
  componentsUnder (components (utf8 above)) (components (utf8 path))

/-- The method list is nonempty and strictly ascending. -/
def checkMethods (methods : List Method) (tag : UInt16) : Except FormatError Unit := do
  refuseIf (methods = []) (.badFieldLength tag 0)
  checkAscending methods
where
  /-- Strictly ascending numbers; a refusal names the first pair that is not. -/
  checkAscending : List Method → Except FormatError Unit
    | a :: b :: rest =>
      if b.asU8 ≤ a.asU8 then .error (.fieldsOutOfOrder a.asU8.toUInt16 b.asU8.toUInt16)
      else checkAscending (b :: rest)
    | _ => .ok ()

/-- The shape of a constraint, checked on writing and on reading. -/
def checkConstraintShape : Constraint → Except FormatError Unit
  | .gitPush remote branch => do
    checkName remote FieldTag.remote
    checkTreePath branch FieldTag.branch
  | .treeRemove treePrefix => checkTreePath treePrefix FieldTag.path
  | .treeRename fromPrefix toPrefix => do
    checkTreePath fromPrefix FieldTag.source
    checkTreePath toPrefix FieldTag.target
  | .httpRequest host methods pathPrefix secretRef => do
    checkHost host FieldTag.host
    checkMethods methods FieldTag.methods
    checkHttpPath pathPrefix FieldTag.pathPrefix
    match secretRef with
    | some reference => checkSecretRef reference FieldTag.secretRef
    | none => .ok ()

/-- The shape of a rule: its number and its constraint say the same kind. -/
def checkRuleShape (rule : ActionRule) : Except FormatError Unit := do
  refuseIf (rule.kind ≠ rule.constraint.kind) (.badFieldLength RuleTag.kind 2)
  checkConstraintShape rule.constraint

/-! ### Arguments within a rule, and rules within a rule -/

/-- A path within the tree: shape first, then the prefix. -/
def underTreePrefix (above path : String) (limiter : Limiter) : Except ActionRefusal Unit := do
  refuseIf ((checkTreePath path FieldTag.path).isOk = false ∨
      (checkTreePath above FieldTag.path).isOk = false)
    (.badPath limiter)
  refuseIf (pathUnder above path = false) (.outsidePrefix limiter)

/-- Do the arguments satisfy the rule's constraints? -/
def argsWithin (rule : ActionRule) (args : Args) : Except ActionRefusal Unit := do
  refuseIf (rule.kind ≠ args.kind ∨ rule.constraint.kind ≠ args.kind) .wrongKind
  match rule.constraint, args with
  | .gitPush remote branch, .gitPush wantRemote wantBranch => do
    refuseIf (remote ≠ wantRemote) (.notEqual .remote)
    refuseIf (branch ≠ wantBranch) (.notEqual .branch)
  | .treeRemove treePrefix, .treeRemove path => underTreePrefix treePrefix path .treePrefix
  | .treeRename fromPrefix toPrefix, .treeRename source target => do
    underTreePrefix fromPrefix source .fromPrefix
    underTreePrefix toPrefix target .toPrefix
  | .httpRequest host methods pathPrefix _, .httpRequest wantHost method path _ bodyLen => do
    refuseIf (host ≠ wantHost) (.notEqual .host)
    refuseIf (method ∉ methods) .methodNotAllowed
    refuseIf ((checkHttpPath path FieldTag.pathPrefix).isOk = false ∨
        (checkHttpPath pathPrefix FieldTag.pathPrefix).isOk = false)
      (.badPath .pathPrefix)
    refuseIf (pathUnder pathPrefix path = false) (.outsidePrefix .pathPrefix)
    refuseIf (maxBodyLen < bodyLen) (.bodyTooLarge bodyLen)
  | _, _ => .error .wrongKind

/-- The child limit is no broader than the parent's, where zero means unlimited. -/
def usesWithin (child parent : UInt32) : Bool :=
  if parent = 0 then true else child ≠ 0 && child ≤ parent

/-- The child prefix lies under the parent prefix, by components. -/
def narrowerPrefix (parent child : String) (limiter : Limiter) : Except ActionRefusal Unit :=
  refuseIf (pathUnder parent child = false) (.widerLimiter limiter)

/-- Is the child rule no broader than the parent rule? -/
def narrower (child parent : ActionRule) : Except ActionRefusal Unit := do
  refuseIf (child.kind ≠ parent.kind) .wrongKind
  -- the owner's approval is given to one door, and no flag passes it on
  refuseIf (parent.confirm = true) .confirmNotDelegable
  refuseIf (parent.delegable = false) .notDelegable
  refuseIf (usesWithin child.maxUses parent.maxUses = false) .moreUses
  match child.constraint, parent.constraint with
  | .gitPush remote branch, .gitPush parentRemote parentBranch => do
    refuseIf (remote ≠ parentRemote) (.widerLimiter .remote)
    refuseIf (branch ≠ parentBranch) (.widerLimiter .branch)
  | .treeRemove treePrefix, .treeRemove parentPrefix =>
    narrowerPrefix parentPrefix treePrefix .treePrefix
  | .treeRename fromPrefix toPrefix, .treeRename parentFrom parentTo => do
    narrowerPrefix parentFrom fromPrefix .fromPrefix
    narrowerPrefix parentTo toPrefix .toPrefix
  | .httpRequest host methods pathPrefix secretRef,
      .httpRequest parentHost parentMethods parentPrefix parentSecret => do
    refuseIf (host ≠ parentHost) (.widerLimiter .host)
    refuseIf (¬∀ m ∈ methods, m ∈ parentMethods) (.widerLimiter .methods)
    narrowerPrefix parentPrefix pathPrefix .pathPrefix
    match secretRef, parentSecret with
    | none, _ => .ok ()
    | some mine, some theirs => refuseIf (mine ≠ theirs) .secretRefChanged
    | some _, none => .error .secretRefChanged
  | _, _ => .error .wrongKind

/-! ### Paths by components -/

/-- The loop over the components compares prefixes. -/
theorem componentsUnder_eq_true_iff {wants parts : List (List UInt8)} :
    componentsUnder wants parts = true ↔ wants <+: parts := by
  fun_induction componentsUnder wants parts with
  | case1 parts => simp
  | case2 wants part parts ih => rw [ih, List.cons_prefix_cons]; simp
  | case3 want wants part parts hne => simp [List.cons_prefix_cons, Ne.symm hne]
  | case4 want wants => simp

/-- **A path lies under another one exactly when its components start with those of the other.** -/
theorem pathUnder_eq_true_iff {above path : String} :
    pathUnder above path = true ↔ components (utf8 above) <+: components (utf8 path) :=
  componentsUnder_eq_true_iff

/-- A path under a path under a third one is under the third. -/
theorem pathUnder_trans {above mid path : String} (h : pathUnder above mid = true)
    (h' : pathUnder mid path = true) : pathUnder above path = true := by
  rw [pathUnder_eq_true_iff] at *
  exact h.trans h'

theorem checkBytes_eq_ok_iff {ok : UInt8 → Bool} {text : String} {tag : UInt16} {u : Unit} :
    checkBytes ok text tag = .ok u ↔ ∀ b ∈ utf8 text, ok b = true := by
  rw [checkBytes]
  split
  · next byte hbyte =>
    have hmem := List.mem_of_find?_eq_some hbyte
    have hbad := List.find?_some hbyte
    simp only [Bool.not_eq_true'] at hbad
    constructor
    · intro h
      cases h
    · intro h
      rw [h byte hmem] at hbad
      cases hbad
  · next hnone => simpa using hnone

/-- **What a path of the tree is.** Only the refusal depends on the tag. -/
theorem checkTreePath_eq_ok_iff {text : String} {tag : UInt16} {u : Unit} :
    checkTreePath text tag = .ok u ↔
      ¬((utf8 text).length = 0 ∨ maxActionPath < (utf8 text).length) ∧
        (∀ b ∈ utf8 text, (nameCharOk b || b == slash) = true) ∧
        (utf8 text).head? ≠ some slash ∧
        ¬((utf8 text).splitOn slash).any (fun part ↦
          part.isEmpty || part == [0x2e] || part == [0x2e, 0x2e]) = true := by
  rw [checkTreePath, Except.check_bind_eq_ok_iff, Except.check_bind_eq_ok_iff,
    Except.check_bind_eq_ok_iff, checkTextLen, Except.refuseIf_eq_ok_iff, checkBytes_eq_ok_iff,
    Except.refuseIf_eq_ok_iff, checkPathParts, Except.refuseIf_eq_ok_iff]

/-- The tag is only for the error. -/
theorem checkTreePath_tag {text : String} {tag : UInt16} (tag' : UInt16)
    (h : checkTreePath text tag = .ok ()) : checkTreePath text tag' = .ok () := by
  rw [checkTreePath_eq_ok_iff] at h ⊢
  exact h

/-! ### Narrowing -/

/-- One constraint is no broader than another: what `narrower` compares, kind by kind. -/
inductive Constraint.Narrows : Constraint → Constraint → Prop
  | gitPush (remote branch : String) : Narrows (.gitPush remote branch) (.gitPush remote branch)
  | treeRemove {child parent : String} (h : pathUnder parent child = true) :
    Narrows (.treeRemove child) (.treeRemove parent)
  | treeRename {childFrom childTo parentFrom parentTo : String}
    (hfrom : pathUnder parentFrom childFrom = true) (hto : pathUnder parentTo childTo = true) :
    Narrows (.treeRename childFrom childTo) (.treeRename parentFrom parentTo)
  | httpRequest {host child parent : String} {methods parentMethods : List Method}
    {secret parentSecret : Option String} (hmethods : ∀ m ∈ methods, m ∈ parentMethods)
    (hpath : pathUnder parent child = true) (hsecret : secret = none ∨ secret = parentSecret) :
    Narrows (.httpRequest host methods child secret)
      (.httpRequest host parentMethods parent parentSecret)

/-- The secret reference of a constraint. -/
def Constraint.secretRef : Constraint → Option String
  | httpRequest _ _ _ secretRef => secretRef
  | _ => none

namespace Constraint.Narrows

variable {a b c : Constraint}

/-- **Narrowing composes**: what a rule admits, every rule above it admits. -/
theorem trans (h : Narrows a b) (h' : Narrows b c) : Narrows a c := by
  cases h with
  | gitPush => exact h'
  | treeRemove hpath =>
    cases h' with
    | treeRemove hpath' => exact .treeRemove (pathUnder_trans hpath' hpath)
  | treeRename hfrom hto =>
    cases h' with
    | treeRename hfrom' hto' =>
      exact .treeRename (pathUnder_trans hfrom' hfrom) (pathUnder_trans hto' hto)
  | httpRequest hmethods hpath hsecret =>
    cases h' with
    | httpRequest hmethods' hpath' hsecret' =>
      refine .httpRequest (fun m hm ↦ hmethods' m (hmethods m hm))
        (pathUnder_trans hpath' hpath) ?_
      rcases hsecret with hnone | rfl
      · exact .inl hnone
      · exact hsecret'

/-- A narrower rule is about the same kind of action. -/
theorem kind_eq (h : Narrows a b) : a.kind = b.kind := by
  cases h <;> rfl

/-- A secret reference is taken off, never changed and never added. -/
theorem secretRef_eq (h : Narrows a b) : a.secretRef = none ∨ a.secretRef = b.secretRef := by
  cases h with
  | httpRequest _ _ hsecret => exact hsecret
  | _ => exact .inl rfl

end Constraint.Narrows

/-- Zero stands for any number of uses. -/
theorem usesWithin_eq_true_iff {child parent : UInt32} :
    usesWithin child parent = true ↔ parent = 0 ∨ child ≠ 0 ∧ child ≤ parent := by
  rw [usesWithin]
  split_ifs with hparent <;> simp [hparent]

/-- Zero is the largest limit. -/
theorem usesWithin_trans {a b c : UInt32} (h : usesWithin a b = true) (h' : usesWithin b c = true) :
    usesWithin a c = true := by
  rw [usesWithin_eq_true_iff] at *
  rcases h' with hc | ⟨hb, hle⟩
  · exact .inl hc
  · rcases h with hzero | ⟨ha, hle'⟩
    · exact absurd hzero hb
    · exact .inr ⟨ha, hle'.trans hle⟩

/-- **When a rule is no broader than another one**: of the same kind, delegable without approval,
with no more executions, and with a narrower constraint. -/
theorem narrower_eq_ok_iff {child parent : ActionRule} {u : Unit} :
    narrower child parent = .ok u ↔
      child.kind = parent.kind ∧ parent.confirm = false ∧ parent.delegable = true ∧
        usesWithin child.maxUses parent.maxUses = true ∧
        child.constraint.Narrows parent.constraint := by
  rw [narrower, Except.check_bind_eq_ok_iff, Except.check_bind_eq_ok_iff,
    Except.check_bind_eq_ok_iff, Except.check_bind_eq_ok_iff, Except.refuseIf_eq_ok_iff, not_not,
    Except.refuseIf_eq_ok_iff, Except.refuseIf_eq_ok_iff, Except.refuseIf_eq_ok_iff,
    Bool.not_eq_true, Bool.not_eq_false, Bool.not_eq_false]
  refine and_congr_right fun _ ↦ and_congr_right fun _ ↦ and_congr_right fun _ ↦
    and_congr_right fun _ ↦ ?_
  -- one case for each kind of action; across kinds nothing is narrower
  cases child.constraint with
  | gitPush remote branch =>
    cases parent.constraint with
    | gitPush parentRemote parentBranch =>
      rw [Except.check_bind_eq_ok_iff, Except.refuseIf_eq_ok_iff, Except.refuseIf_eq_ok_iff, not_not,
        not_not]
      constructor
      · rintro ⟨rfl, rfl⟩
        exact .gitPush remote branch
      · intro h
        cases h
        exact ⟨rfl, rfl⟩
    | _ => exact iff_of_false Except.error_ne_ok (by rintro ⟨⟩)
  | treeRemove treePrefix =>
    cases parent.constraint with
    | treeRemove parentPrefix =>
      show narrowerPrefix parentPrefix treePrefix .treePrefix = .ok u ↔ _
      rw [narrowerPrefix, Except.refuseIf_eq_ok_iff, Bool.not_eq_false]
      constructor
      · intro h
        exact .treeRemove h
      · intro h
        cases h with
        | treeRemove h => exact h
    | _ => exact iff_of_false Except.error_ne_ok (by rintro ⟨⟩)
  | treeRename fromPrefix toPrefix =>
    cases parent.constraint with
    | treeRename parentFrom parentTo =>
      rw [Except.check_bind_eq_ok_iff, narrowerPrefix, narrowerPrefix, Except.refuseIf_eq_ok_iff,
        Except.refuseIf_eq_ok_iff, Bool.not_eq_false, Bool.not_eq_false]
      constructor
      · rintro ⟨hfrom, hto⟩
        exact .treeRename hfrom hto
      · intro h
        cases h with
        | treeRename hfrom hto => exact ⟨hfrom, hto⟩
    | _ => exact iff_of_false Except.error_ne_ok (by rintro ⟨⟩)
  | httpRequest host methods pathPrefix secretRef =>
    cases parent.constraint with
    | httpRequest parentHost parentMethods parentPrefix parentSecret =>
      rw [Except.check_bind_eq_ok_iff, Except.check_bind_eq_ok_iff, Except.check_bind_eq_ok_iff,
        narrowerPrefix, Except.refuseIf_eq_ok_iff, Except.refuseIf_eq_ok_iff,
        Except.refuseIf_eq_ok_iff, not_not, not_not, Bool.not_eq_false]
      -- a child may drop the secret, but not name another one
      have hsecret : (match secretRef, parentSecret with
          | none, _ => .ok ()
          | some mine, some theirs => refuseIf (mine ≠ theirs) .secretRefChanged
          | some _, none => .error .secretRefChanged : Except ActionRefusal Unit) = .ok u ↔
            secretRef = none ∨ secretRef = parentSecret := by
        rcases secretRef with - | mine <;> rcases parentSecret with - | theirs <;> simp
      constructor
      · rintro ⟨rfl, hmethods, hpath, h⟩
        exact .httpRequest hmethods hpath (hsecret.mp h)
      · intro h
        cases h with
        | httpRequest hmethods hpath h => exact ⟨rfl, hmethods, hpath, hsecret.mpr h⟩
    | _ => exact iff_of_false Except.error_ne_ok (by rintro ⟨⟩)

/-! ### Arguments -/

/-- A path of the tree lies under a prefix. -/
def UnderTree (above path : String) : Prop :=
  checkTreePath path FieldTag.path = .ok () ∧ checkTreePath above FieldTag.path = .ok () ∧
    pathUnder above path = true

theorem underTreePrefix_eq_ok_iff {above path : String} {limiter : Limiter} {u : Unit} :
    underTreePrefix above path limiter = .ok u ↔ UnderTree above path := by
  rw [underTreePrefix, Except.check_bind_eq_ok_iff, Except.refuseIf_eq_ok_iff,
    Except.refuseIf_eq_ok_iff, Except.isOk_eq_false_iff, Except.isOk_eq_false_iff, not_or, not_not,
    not_not, Bool.not_eq_false, and_assoc]
  rfl

/-- A constraint admits arguments: what `argsWithin` checks, kind by kind. -/
inductive Constraint.Admits : Constraint → Args → Prop
  | gitPush (remote branch : String) : Admits (.gitPush remote branch) (.gitPush remote branch)
  | treeRemove {treePrefix path : String} (h : UnderTree treePrefix path) :
    Admits (.treeRemove treePrefix) (.treeRemove path)
  | treeRename {fromPrefix toPrefix source target : String} (hsource : UnderTree fromPrefix source)
    (htarget : UnderTree toPrefix target) :
    Admits (.treeRename fromPrefix toPrefix) (.treeRename source target)
  | httpRequest {host pathPrefix path : String} {methods : List Method} {secret : Option String}
    {method : Method} {digest : Digest} {bodyLen : UInt32} (hmethod : method ∈ methods)
    (hpath : checkHttpPath path FieldTag.pathPrefix = .ok ())
    (habove : checkHttpPath pathPrefix FieldTag.pathPrefix = .ok ())
    (hunder : pathUnder pathPrefix path = true) (hlen : bodyLen ≤ maxBodyLen) :
    Admits (.httpRequest host methods pathPrefix secret)
      (.httpRequest host method path digest bodyLen)

/-- **When arguments lie within a rule.** -/
theorem argsWithin_eq_ok_iff {rule : ActionRule} {args : Args} {u : Unit} :
    argsWithin rule args = .ok u ↔ rule.kind = args.kind ∧ rule.constraint.kind = args.kind ∧
      rule.constraint.Admits args := by
  rw [argsWithin.eq_def, Except.check_bind_eq_ok_iff, Except.refuseIf_eq_ok_iff, not_or, not_not, not_not,
    and_assoc]
  refine and_congr_right fun _ ↦ and_congr_right fun _ ↦ ?_
  -- the arguments are compared with the rule of their own kind
  cases rule.constraint with
  | gitPush remote branch =>
    cases args with
    | gitPush wantRemote wantBranch =>
      rw [Except.check_bind_eq_ok_iff, Except.refuseIf_eq_ok_iff, Except.refuseIf_eq_ok_iff, not_not,
        not_not]
      constructor
      · rintro ⟨rfl, rfl⟩
        exact .gitPush remote branch
      · intro h
        cases h
        exact ⟨rfl, rfl⟩
    | _ => exact ⟨nofun, nofun⟩
  | treeRemove treePrefix =>
    cases args with
    | treeRemove path =>
      show underTreePrefix treePrefix path .treePrefix = .ok u ↔ _
      rw [underTreePrefix_eq_ok_iff]
      constructor
      · intro h
        exact .treeRemove h
      · intro h
        cases h with
        | treeRemove h => exact h
    | _ => exact ⟨nofun, nofun⟩
  | treeRename fromPrefix toPrefix =>
    cases args with
    | treeRename source target =>
      rw [Except.check_bind_eq_ok_iff, underTreePrefix_eq_ok_iff, underTreePrefix_eq_ok_iff]
      constructor
      · rintro ⟨hsource, htarget⟩
        exact .treeRename hsource htarget
      · intro h
        cases h with
        | treeRename hsource htarget => exact ⟨hsource, htarget⟩
    | _ => exact ⟨nofun, nofun⟩
  | httpRequest host methods pathPrefix secretRef =>
    cases args with
    | httpRequest wantHost method path digest bodyLen =>
      simp only [Except.check_bind_eq_ok_iff, Except.refuseIf_eq_ok_iff, Except.isOk_eq_false_iff,
        not_or, not_not, Bool.not_eq_false, not_lt]
      constructor
      · rintro ⟨rfl, hmethod, ⟨hpath, habove⟩, hunder, hlen⟩
        exact .httpRequest hmethod hpath habove hunder hlen
      · intro h
        cases h with
        | httpRequest hmethod hpath habove hunder hlen =>
          exact ⟨rfl, hmethod, ⟨hpath, habove⟩, hunder, hlen⟩
    | _ => exact ⟨nofun, nofun⟩

/-- **What lies within a constraint lies within every well-formed one that it narrows.** -/
theorem Constraint.Admits.of_narrows {child parent : Constraint} {args : Args}
    (h : child.Admits args) (hnarrows : child.Narrows parent)
    (hshape : checkConstraintShape parent = .ok ()) : parent.Admits args := by
  cases hnarrows with
  | gitPush => exact h
  | treeRemove hunder =>
    cases h with
    | treeRemove hpath =>
      exact .treeRemove ⟨hpath.1, hshape, pathUnder_trans hunder hpath.2.2⟩
  | treeRename hfrom hto =>
    cases h with
    | treeRename hsource htarget =>
      obtain ⟨hshapeFrom, hshapeTo⟩ := Except.check_bind_eq_ok_iff.mp hshape
      exact .treeRename
        ⟨hsource.1, checkTreePath_tag _ hshapeFrom, pathUnder_trans hfrom hsource.2.2⟩
        ⟨htarget.1, checkTreePath_tag _ hshapeTo, pathUnder_trans hto htarget.2.2⟩
  | httpRequest hmethods hunder _ =>
    cases h with
    | httpRequest hmethod hpath habove hunder' hlen =>
      obtain ⟨-, hshape⟩ := Except.check_bind_eq_ok_iff.mp hshape
      obtain ⟨-, hshape⟩ := Except.check_bind_eq_ok_iff.mp hshape
      obtain ⟨hshapePath, -⟩ := Except.check_bind_eq_ok_iff.mp hshape
      exact .httpRequest (hmethods _ hmethod) hpath hshapePath (pathUnder_trans hunder hunder') hlen

/-- **What lies within a rule lies within every well-formed one that it narrows.** -/
theorem argsWithin_of_narrows {child parent : ActionRule} {args : Args}
    (hkind : child.kind = parent.kind) (hnarrows : child.constraint.Narrows parent.constraint)
    (hshape : checkRuleShape parent = .ok ()) (h : argsWithin child args = .ok ()) :
    argsWithin parent args = .ok () := by
  obtain ⟨-, hconstraint⟩ := Except.check_bind_eq_ok_iff.mp hshape
  obtain ⟨hargs, hargs', hadmits⟩ := argsWithin_eq_ok_iff.mp h
  exact argsWithin_eq_ok_iff.mpr ⟨hkind.symm.trans hargs, hnarrows.kind_eq.symm.trans hargs',
    hadmits.of_narrows hnarrows hconstraint⟩

end OpenCrate.Protocol
