import OpenCrate.Data.DotSegments
import OpenCrate.Protocol.Action

/-!
# Where an allowed request leads

A rule of requests names a path prefix, and `argsWithin` compares the components of the requested path
with those of the prefix as they are written. A server reads more into a path: it decodes `%` and two
hexadecimal digits to a byte, and it resolves the segments `.` and `..`. The check refuses these two
where they are written out, and admits `%` undecoded, so that `%2e%2e` passes as a name.

`resolvedPath` is what a server reads, without the slash a directory ends in. It stays under what the
prefix resolves to exactly when the walk over the segments behind the prefix ends with all of its places
kept (`StaysWithin`). A walk that has no more `..` than names before it keeps them (`StaysBelow`), and a
path without a `%` has no `..` at all (`staysBelow_of_no_percent`).
-/

namespace OpenCrate.Protocol

open OpenCrate.Format OpenCrate.Crypto

/-! ### What a server reads -/

/-- The value of a hexadecimal digit. -/
def hexValue (c : UInt8) : Option UInt8 :=
  if 0x30 ≤ c && c ≤ 0x39 then some (c - 0x30)
  else if 0x61 ≤ c && c ≤ 0x66 then some (c - 0x57)
  else if 0x41 ≤ c && c ≤ 0x46 then some (c - 0x37)
  else none

/-- Percent-decoding; a `%` that two digits do not follow stands for itself. -/
def percentDecode : List UInt8 → List UInt8
  | 0x25 :: high :: low :: rest =>
    match hexValue high, hexValue low with
    | some h, some l => (16 * h + l) :: percentDecode rest
    | _, _ => 0x25 :: percentDecode (high :: low :: rest)
  | b :: rest => b :: percentDecode rest
  | [] => []

/-- A decoded segment as a step of the path. -/
def readSegment (text : List UInt8) : Segment (List UInt8) :=
  if text = [0x2e] then .stay else if text = [0x2e, 0x2e] then .climb else .name text

/-- The segments of written components: each one decoded, and split again. -/
def decodedSegments (parts : List (List UInt8)) : List (Segment (List UInt8)) :=
  parts.flatMap fun part ↦ ((percentDecode part).splitOn slash).map readSegment

/-- The segments of a path as a server resolves it; `/v1` and `/v1/` are one path. -/
def resolvedPath (path : String) : List (List UInt8) :=
  Segment.dropTrailing [] (Segment.resolve [] (decodedSegments (components (utf8 path))))

/-- The components of a path behind those of a prefix. -/
def componentsBehind (pathPrefix path : String) : List (List UInt8) :=
  (components (utf8 path)).drop (components (utf8 pathPrefix)).length

/-- The walk over the segments behind the prefix ends with all places of the prefix kept. -/
def StaysWithin (pathPrefix path : String) : Prop :=
  Segment.StaysWithin [] (decodedSegments (components (utf8 pathPrefix)))
    (decodedSegments (componentsBehind pathPrefix path))

instance (pathPrefix path : String) : Decidable (StaysWithin pathPrefix path) :=
  inferInstanceAs (Decidable (Segment.StaysWithin _ _ _))

/-- No beginning of the segments behind the prefix climbs more often than it names a place. -/
def StaysBelow (pathPrefix path : String) : Prop :=
  Segment.StaysBelow 0 (decodedSegments (componentsBehind pathPrefix path))

theorem decodedSegments_append (parts parts' : List (List UInt8)) :
    decodedSegments (parts ++ parts') = decodedSegments parts ++ decodedSegments parts' :=
  List.flatMap_append

/-! ### Paths without a percent sign -/

/-- Nothing is decoded where no percent sign stands. -/
theorem percentDecode_eq_self {text : List UInt8} (h : 0x25 ∉ text) : percentDecode text = text := by
  fun_induction percentDecode text with
  | case1 high low rest => simp at h
  | case2 high low rest => simp at h
  | case3 b rest hb ih => rw [ih fun hmem ↦ h (List.mem_cons_of_mem _ hmem)]
  | case4 => rfl

theorem mem_of_mem_splitOn {sep b : UInt8} {text part : List UInt8} (h : part ∈ text.splitOn sep)
    (hb : b ∈ part) : b ∈ text ∧ b ≠ sep := by
  -- by induction on the text: a separator opens a new part, and any other byte joins the first one
  induction text generalizing part with
  | nil =>
    rw [List.splitOn_nil, List.mem_singleton] at h
    rw [h] at hb
    cases hb
  | cons c text ih =>
    rw [List.splitOn_cons_eq_if_modifyHead] at h
    split at h
    · rcases List.mem_cons.mp h with rfl | h
      · cases hb
      · have htext := ih h hb
        exact ⟨List.mem_cons_of_mem _ htext.1, htext.2⟩
    · next hc =>
      obtain ⟨first, parts, hparts⟩ := List.exists_cons_of_ne_nil (List.splitOn_ne_nil sep text)
      rw [hparts] at h ih
      rcases List.mem_cons.mp h with rfl | h
      · rcases List.mem_cons.mp hb with rfl | hb
        · exact ⟨List.mem_cons_self, by simpa using hc⟩
        · have htext := ih List.mem_cons_self hb
          exact ⟨List.mem_cons_of_mem _ htext.1, htext.2⟩
      · have htext := ih (List.mem_cons_of_mem _ h) hb
        exact ⟨List.mem_cons_of_mem _ htext.1, htext.2⟩

/-- **No component of a checked path is a dot segment**, as it is written. -/
theorem checkHttpPath_components {path : String} {tag : UInt16} {u : Unit}
    (h : checkHttpPath path tag = .ok u) :
    ∀ part ∈ components (utf8 path), part ≠ [0x2e] ∧ part ≠ [0x2e, 0x2e] := by
  rw [checkHttpPath, Except.check_bind_eq_ok_iff, Except.check_bind_eq_ok_iff] at h
  obtain ⟨-, -, h⟩ := h
  split at h
  · next first rest htext =>
    split at h
    · next hfirst =>
      -- the leading slash adds an empty part, which is not a component
      have hcomponents : components (utf8 path) = components rest := by
        rw [components, components, htext, hfirst, List.splitOn_cons_eq_if_modifyHead,
          if_pos (beq_self_eq_true slash), List.filter_cons_of_neg (by simp)]
      rw [hcomponents]
      split at h
      · next hrest =>
        rw [hrest]
        intro part hpart
        cases hpart
      · rw [checkPathParts, Except.refuseIf_eq_ok_iff] at h
        intro part hpart
        have hmem := (List.mem_filter.mp hpart).1
        constructor
        · intro hdot
          exact h (List.any_eq_true.mpr ⟨part, hmem, by rw [hdot]; decide⟩)
        · intro hdots
          exact h (List.any_eq_true.mpr ⟨part, hmem, by rw [hdots]; decide⟩)
    · cases h
  · cases h

/-- Components that are written out name what they are. -/
theorem decodedSegments_eq_map_name {parts : List (List UInt8)}
    (h : ∀ part ∈ parts, 0x25 ∉ part ∧ slash ∉ part ∧ part ≠ [0x2e] ∧ part ≠ [0x2e, 0x2e]) :
    decodedSegments parts = parts.map Segment.name := by
  induction parts with
  | nil => rfl
  | cons part parts ih =>
    obtain ⟨hpercent, hslash, hdot, hdots⟩ := h part List.mem_cons_self
    rw [decodedSegments, List.flatMap_cons, percentDecode_eq_self hpercent,
      List.splitOn_eq_singleton hslash, List.map_singleton, readSegment, if_neg hdot, if_neg hdots,
      List.map_cons, List.singleton_append]
    exact congrArg _ (ih fun part hpart ↦ h part (List.mem_cons_of_mem _ hpart))

/-- **Without a percent sign, nothing behind the prefix climbs.** -/
theorem staysBelow_of_no_percent {pathPrefix path : String} {tag : UInt16}
    (hpath : checkHttpPath path tag = .ok ()) (hpercent : 0x25 ∉ utf8 path) : StaysBelow pathPrefix path := by
  have hparts : ∀ part ∈ componentsBehind pathPrefix path,
      0x25 ∉ part ∧ slash ∉ part ∧ part ≠ [0x2e] ∧ part ≠ [0x2e, 0x2e] := by
    intro part hpart
    have hcomponent := List.mem_of_mem_drop hpart
    have hmem := (List.mem_filter.mp hcomponent).1
    exact ⟨fun hb ↦ hpercent (mem_of_mem_splitOn hmem hb).1, fun hb ↦ (mem_of_mem_splitOn hmem hb).2 rfl,
      checkHttpPath_components hpath part hcomponent⟩
  rw [StaysBelow, decodedSegments_eq_map_name hparts]
  exact Segment.StaysBelow.of_names 0 _

/-! ### Confinement -/

/-- A path under a prefix resolves under it exactly when what is behind the prefix stays within. -/
theorem resolvedPath_prefix_iff_of_pathUnder {pathPrefix path : String}
    (h : pathUnder pathPrefix path = true) :
    resolvedPath pathPrefix <+: resolvedPath path ↔ StaysWithin pathPrefix path := by
  have hpath : components (utf8 path) =
      components (utf8 pathPrefix) ++ componentsBehind pathPrefix path := by
    obtain ⟨behind, hbehind⟩ := pathUnder_eq_true_iff.mp h
    rw [componentsBehind, ← hbehind, List.drop_left]
  rw [resolvedPath, resolvedPath, hpath, decodedSegments_append, StaysWithin]
  exact Segment.prefix_append_iff

/-- **An allowed request leads under its prefix exactly when the walk over what it adds to the prefix,
decoded, ends with every place of the prefix kept.** So it does when what it adds never climbs above the
prefix, and a path without a percent sign adds nothing that climbs. -/
theorem resolvedPath_prefix_iff {rule : ActionRule} {host pathPrefix wantHost path : String}
    {methods : List Method} {secretRef : Option String} {method : Method} {digest : Digest}
    {bodyLen : UInt32} (hrule : rule.constraint = .httpRequest host methods pathPrefix secretRef)
    (h : argsWithin rule (.httpRequest wantHost method path digest bodyLen) = .ok ()) :
    (resolvedPath pathPrefix <+: resolvedPath path ↔ StaysWithin pathPrefix path) ∧
      (StaysBelow pathPrefix path → StaysWithin pathPrefix path) ∧
      (0x25 ∉ utf8 path → StaysBelow pathPrefix path) := by
  obtain ⟨-, -, hadmits⟩ := argsWithin_eq_ok_iff.mp h
  rw [hrule] at hadmits
  cases hadmits with
  | httpRequest hmethod hpath habove hunder hlen =>
    exact ⟨resolvedPath_prefix_iff_of_pathUnder hunder, Segment.StaysBelow.staysWithin,
      staysBelow_of_no_percent hpath⟩

/-- A rule for one directory of a host. -/
def directoryRule : ActionRule :=
  ⟨.httpRequest, .httpRequest "api.example.com" [.get] "/v1" none, 0, false, true⟩

/-- A request for a path. -/
def requestFor (path : String) : Args :=
  .httpRequest "api.example.com" .get path (List.Vector.replicate 32 0) 0

/-- A path that leaves the directory and comes back. -/
theorem resolvedPath_prefix_iff_detour :
    argsWithin directoryRule (requestFor "/v1/%2e%2e/v1/a") = .ok () ∧
      (resolvedPath "/v1" <+: resolvedPath "/v1/%2e%2e/v1/a" ↔ StaysWithin "/v1" "/v1/%2e%2e/v1/a") ∧
      (StaysBelow "/v1" "/v1/%2e%2e/v1/a" → StaysWithin "/v1" "/v1/%2e%2e/v1/a") ∧
      (0x25 ∉ utf8 "/v1/%2e%2e/v1/a" → StaysBelow "/v1" "/v1/%2e%2e/v1/a") := by
  have h : argsWithin directoryRule (requestFor "/v1/%2e%2e/v1/a") = .ok () := by decide +kernel
  exact ⟨h, resolvedPath_prefix_iff rfl h⟩

/-- **An encoded `..` passes as a name, and what the server resolves lies outside the prefix.** -/
theorem encoded_climb_leaves_prefix :
    checkRuleShape directoryRule = .ok () ∧
      argsWithin directoryRule (requestFor "/v1/%2e%2e/admin") = .ok () ∧
      resolvedPath "/v1/%2e%2e/admin" = [utf8 "admin"] ∧
      ¬resolvedPath "/v1" <+: resolvedPath "/v1/%2e%2e/admin" := by
  decide +kernel

end OpenCrate.Protocol
