import OpenCrate.Engine.Wire

/-!
# The pipe codec is exact

A message is its kind and the bytes of its fields. The writer appends exactly these bytes (`Appends`), the
computed size is their number, and the parser reads them back (`Parser.Reads`). So the size check of the
writer never fails, and the codec is exact.
-/

namespace OpenCrate.Engine.Wire

open Crypto Format
open Except (refuseIf okOr)

/-! ### The bytes of a message -/

/-- A length-prefixed piece. -/
def blobBytes (v : List UInt8) : List UInt8 := toLeBytes (UInt32.ofNat v.length) ++ v

/-- A recipient. -/
def recipientBytes : Recipient → List UInt8
  | .none => [RecipientKind.none]
  | .identity publicKey => [RecipientKind.identity] ++ publicKey.toList
  | .hybrid publicKey => [RecipientKind.hybrid] ++ publicKey.toList
  | .hardwareHybrid publicKey => [RecipientKind.hardwareHybrid] ++ publicKey.toList
  | .claim secret => [RecipientKind.claim] ++ secret.expose.toList

/-- A key that may be absent. -/
def optionalBytes : Option (List UInt8) → List UInt8
  | none => [0]
  | some bytes => [1] ++ blobBytes bytes

/-- The coauthors. -/
def coauthorsBytes : Option Coauthors → List UInt8
  | none => [0]
  | some roster => [1] ++ ([roster.threshold] ++ ([UInt8.ofNat roster.keys.length] ++
      roster.keys.flatMap List.Vector.toList))

/-- The fields of a planning request. -/
def planBytes (args : PlanArgs) (policy : List UInt8) (count : UInt32) : List UInt8 :=
  blobBytes (utf8 args.originalName) ++ (blobBytes policy ++ (toLeBytes args.chunkSize ++
    (blobBytes args.orgId ++ (toLeBytes count ++
      (args.authorityUrls.flatMap (fun url ↦ blobBytes (utf8 url)) ++ (recipientBytes args.recipient ++
        (args.author.toList ++ (args.authoritySealing.toList ++ (args.authorityLeaseVerify.toList ++
          (args.device.toList ++ (optionalBytes args.deviceHybrid ++
            (optionalBytes args.deviceHardwareHybrid ++ (optionalBytes args.deviceTpm ++
              coauthorsBytes args.coauthors)))))))))))))

@[simp] theorem length_blobBytes (v : List UInt8) : (blobBytes v).length = 4 + v.length := by
  rw [blobBytes, List.length_append, length_toLeBytes]
  rfl

/-! ### Sizes -/

section Sizes

variable {size size' len : ℕ}

/-- The sum is taken if it does not overflow. -/
theorem add_eq_ok_iff {a b : ℕ} : add a b = .ok size ↔ a + b < 2 ^ 64 ∧ a + b = size := by
  rw [add]
  split_ifs with h
  · rw [Except.ok.injEq, and_iff_right h]
  · exact ⟨nofun, fun hlt ↦ absurd hlt.1 h⟩

/-- The writers complain about a wrong size only where they compare it. The functions that add up a size fail in
other ways. -/
theorem add_ne_badSize (a b : ℕ) : add a b ≠ .error .badSize := by
  rw [add]
  split_ifs <;> simp

/-- The size of a message is added up from the sizes of its parts. -/
theorem eq_of_addBlob (h : addBlob size len = .ok size') : size' = size + (4 + len) := by
  obtain ⟨blob, hblob, h⟩ := Except.bind_eq_ok_iff.mp h
  obtain ⟨-, rfl⟩ := add_eq_ok_iff.mp hblob
  exact (add_eq_ok_iff.mp h).2.symm

theorem addBlob_ne_badSize (size len : ℕ) : addBlob size len ≠ .error .badSize :=
  Except.bind_ne_error (add_ne_badSize _ _) fun _ _ ↦ add_ne_badSize _ _

theorem eq_of_addOptional {bytes : Option (List UInt8)} (h : addOptional size bytes = .ok size') :
    size' = size + (optionalBytes bytes).length := by
  obtain ⟨one, hone, h⟩ := Except.bind_eq_ok_iff.mp h
  obtain ⟨-, rfl⟩ := add_eq_ok_iff.mp hone
  cases bytes with
  | none => exact (Except.ok.inj h).symm
  | some bytes =>
    rw [eq_of_addBlob h, optionalBytes, List.length_append, length_blobBytes, List.length_singleton]
    omega

theorem addOptional_ne_badSize (size : ℕ) (bytes : Option (List UInt8)) :
    addOptional size bytes ≠ .error .badSize := by
  refine Except.bind_ne_error (add_ne_badSize _ _) fun _ _ ↦ ?_
  cases bytes with
  | none => exact nofun
  | some bytes => exact addBlob_ne_badSize _ _

theorem length_recipientBytes (recipient : Recipient) :
    (recipientBytes recipient).length = 1 + recipientSize recipient := by
  cases recipient <;> simp [recipientBytes, recipientSize, secretLen, Nat.add_comm]

theorem length_flatMap_toList (keys : List Digest) :
    (keys.flatMap List.Vector.toList).length = keys.length * 32 := by
  induction keys with
  | nil => rfl
  | cons key keys ih =>
    rw [List.flatMap_cons, List.length_append, ih, key.toList_length, List.length_cons, Nat.succ_mul]
    omega

/-- A roster is checked while it is measured. -/
theorem eq_of_addCoauthors {coauthors : Option Coauthors} (h : addCoauthors size coauthors = .ok size') :
    size' = size + (coauthorsBytes coauthors).length ∧
      ∀ roster, coauthors = some roster → checkCoauthors roster = .ok () := by
  obtain ⟨one, hone, h⟩ := Except.bind_eq_ok_iff.mp h
  obtain ⟨-, rfl⟩ := add_eq_ok_iff.mp hone
  cases coauthors with
  | none => exact ⟨(Except.ok.inj h).symm, nofun⟩
  | some roster =>
    obtain ⟨hcheck, h⟩ := Except.check_bind_eq_ok_iff.mp h
    obtain ⟨two, htwo, h⟩ := Except.bind_eq_ok_iff.mp h
    obtain ⟨-, rfl⟩ := add_eq_ok_iff.mp htwo
    obtain ⟨-, h⟩ := Except.check_bind_eq_ok_iff.mp h
    refine ⟨?_, ?_⟩
    · rw [← (add_eq_ok_iff.mp h).2, coauthorsBytes]
      simp only [List.length_append, List.length_singleton, length_flatMap_toList]
      omega
    · rintro _ ⟨⟩
      exact Except.mapError_eq_ok_iff.mp hcheck

theorem addCoauthors_ne_badSize (size : ℕ) (coauthors : Option Coauthors) :
    addCoauthors size coauthors ≠ .error .badSize := by
  refine Except.bind_ne_error (add_ne_badSize _ _) fun _ _ ↦ ?_
  cases coauthors with
  | none => exact nofun
  | some roster =>
    refine Except.bind_ne_error (Except.mapError_ne_error nofun _) fun _ _ ↦ ?_
    refine Except.bind_ne_error (add_ne_badSize _ _) fun _ _ ↦ ?_
    exact Except.bind_ne_error (by simp) fun _ _ ↦ add_ne_badSize _ _

/-- The addresses are measured one by one. -/
theorem eq_of_foldlM_addBlob {urls : List String}
    (h : urls.foldlM (fun size url ↦ addBlob size (utf8 url).length) size = .ok size') :
    size' = size + (urls.flatMap fun url ↦ blobBytes (utf8 url)).length := by
  induction urls generalizing size with
  | nil =>
    obtain rfl := Except.ok.inj h
    rfl
  | cons url urls ih =>
    rw [List.foldlM_cons] at h
    obtain ⟨next, hnext, h⟩ := Except.bind_eq_ok_iff.mp h
    rw [ih h, eq_of_addBlob hnext, List.flatMap_cons, List.length_append, length_blobBytes]
    omega

theorem foldlM_addBlob_ne_badSize (urls : List String) (size : ℕ) :
    urls.foldlM (fun size url ↦ addBlob size (utf8 url).length) size ≠ .error .badSize := by
  induction urls generalizing size with
  | nil => exact nofun
  | cons url urls ih =>
    rw [List.foldlM_cons]
    exact Except.bind_ne_error (addBlob_ne_badSize _ _) fun next _ ↦ ih next

/-- **The computed size is the number of bytes.** -/
theorem eq_of_planSize {args : PlanArgs} {policy : List UInt8} (count : UInt32)
    (h : planSize args policy = .ok size) :
    size = 1 + (planBytes args policy count).length ∧
      ∀ roster, args.coauthors = some roster → checkCoauthors roster = .ok () := by
  simp only [planSize, Except.bind_eq_ok_iff, add_eq_ok_iff] at h
  obtain ⟨_, hname, _, hpolicy, _, ⟨-, rfl⟩, _, horg, _, ⟨-, rfl⟩, _, hurls, _, ⟨-, rfl⟩, _, ⟨-, rfl⟩,
    _, ⟨-, rfl⟩, _, hhybrid, _, hhardware, _, htpm, hcoauthors⟩ := h
  obtain ⟨hsize, hvalid⟩ := eq_of_addCoauthors hcoauthors
  refine ⟨?_, hvalid⟩
  rw [hsize, eq_of_addOptional htpm, eq_of_addOptional hhardware, eq_of_addOptional hhybrid,
    eq_of_foldlM_addBlob hurls, eq_of_addBlob horg, eq_of_addBlob hpolicy, eq_of_addBlob hname]
  simp only [planBytes, List.length_append, length_blobBytes, length_toLeBytes, length_recipientBytes,
    List.Vector.toList_length, show LeInt.width UInt32 = 4 from rfl]
  omega

theorem planSize_ne_badSize (args : PlanArgs) (policy : List UInt8) :
    planSize args policy ≠ .error .badSize := by
  refine Except.bind_ne_error (addBlob_ne_badSize _ _) fun _ _ ↦ ?_
  refine Except.bind_ne_error (addBlob_ne_badSize _ _) fun _ _ ↦ ?_
  refine Except.bind_ne_error (add_ne_badSize _ _) fun _ _ ↦ ?_
  refine Except.bind_ne_error (addBlob_ne_badSize _ _) fun _ _ ↦ ?_
  refine Except.bind_ne_error (add_ne_badSize _ _) fun _ _ ↦ ?_
  refine Except.bind_ne_error (foldlM_addBlob_ne_badSize _ _) fun _ _ ↦ ?_
  refine Except.bind_ne_error (add_ne_badSize _ _) fun _ _ ↦ ?_
  refine Except.bind_ne_error (add_ne_badSize _ _) fun _ _ ↦ ?_
  refine Except.bind_ne_error (add_ne_badSize _ _) fun _ _ ↦ ?_
  refine Except.bind_ne_error (addOptional_ne_badSize _ _) fun _ _ ↦ ?_
  refine Except.bind_ne_error (addOptional_ne_badSize _ _) fun _ _ ↦ ?_
  refine Except.bind_ne_error (addOptional_ne_badSize _ _) fun _ _ ↦ ?_
  exact addCoauthors_ne_badSize _ _

end Sizes

/-! ### The writer appends the bytes -/

/-- With room for the bytes, the action writes them and nothing else. -/
def Appends (write : Writer → Except WireError Writer) (bytes : List UInt8) : Prop :=
  ∀ w : Writer, w.written.length + bytes.length ≤ w.capacity → w.capacity ≤ maxMessage →
    write w = .ok { w with written := w.written ++ bytes }

section Writing

/-- A writer **appends** bytes if it puts them behind what was written, or fails. Every part of a message is
appended. -/
theorem appends_raw (v : List UInt8) : Appends (·.raw v) v := by
  intro w hroom hcapacity
  have hmax : maxMessage = 1048576 := rfl
  have hadd : add w.written.length v.length = .ok (w.written.length + v.length) :=
    add_eq_ok_iff.mpr ⟨by omega, rfl⟩
  show w.raw v = _
  rw [Writer.raw, hadd, Except.ok_bind, Except.refuseIf_of_not (not_lt.mpr hroom)]
  rfl

/-- One writer after the other. -/
theorem Appends.bind {f g : Writer → Except WireError Writer} {bytes bytes' : List UInt8}
    (hf : Appends f bytes) (hg : Appends g bytes') : Appends (fun w ↦ f w >>= g) (bytes ++ bytes') := by
  intro w hroom hcapacity
  rw [List.length_append] at hroom
  have hroom' : (w.written ++ bytes).length + bytes'.length ≤ w.capacity := by
    rw [List.length_append]
    omega
  show f w >>= g = _
  rw [hf w (by omega) hcapacity, Except.ok_bind,
    hg ⟨w.capacity, w.written ++ bytes⟩ hroom' hcapacity, List.append_assoc]

theorem appends_blob (v : List UInt8) : Appends (·.blob v) (blobBytes v) := by
  intro w hroom hcapacity
  have hmax : maxMessage = 1048576 := rfl
  have hlen : v.length < 2 ^ 32 := by
    rw [length_blobBytes] at hroom
    omega
  show w.blob v = _
  rw [Writer.blob, UInt32.tryFrom, if_pos hlen]
  exact (appends_raw (toLeBytes (UInt32.ofNat v.length))).bind (appends_raw v) w hroom hcapacity

/-- A writer for every item of a list. -/
theorem appends_each {α : Type} {write : Writer → α → Except WireError Writer} {part : α → List UInt8}
    (h : ∀ a, Appends (write · a) (part a)) (l : List α) :
    Appends (Writer.each write l) (l.flatMap part) := by
  induction l with
  | nil =>
    intro w _ _
    show Except.ok w = _
    rw [List.flatMap_nil, List.append_nil]
  | cons a l ih =>
    rw [List.flatMap_cons]
    exact (h a).bind ih

theorem appends_recipient (recipient : Recipient) :
    Appends (·.recipient recipient) (recipientBytes recipient) := by
  cases recipient with
  | none => exact appends_raw _
  | identity publicKey => exact (appends_raw _).bind (appends_raw _)
  | hybrid publicKey => exact (appends_raw _).bind (appends_raw _)
  | hardwareHybrid publicKey => exact (appends_raw _).bind (appends_raw _)
  | claim secret => exact (appends_raw _).bind (appends_raw _)

theorem appends_optional (bytes : Option (List UInt8)) :
    Appends (·.optional bytes) (optionalBytes bytes) := by
  cases bytes with
  | none => exact appends_raw _
  | some bytes => exact (appends_raw _).bind (appends_blob _)

/-- The keys of a checked roster can be counted in one byte. -/
theorem length_keys_le {roster : Coauthors} (h : checkCoauthors roster = .ok ()) :
    roster.keys.length ≤ maxCoauthors := by
  unfold checkCoauthors at h
  split_ifs at h
  · rw [Except.refuseIf_eq_ok_iff, not_not] at h
    rw [h]
    exact Nat.zero_le _
  · obtain ⟨hfew, -⟩ := Except.check_bind_eq_ok_iff.mp h
    rw [Except.refuseIf_eq_ok_iff, not_or, not_lt] at hfew
    exact hfew.2

theorem appends_coauthors {coauthors : Option Coauthors}
    (h : ∀ roster, coauthors = some roster → checkCoauthors roster = .ok ()) :
    Appends (·.coauthors coauthors) (coauthorsBytes coauthors) := by
  cases coauthors with
  | none => exact appends_raw _
  | some roster =>
    have hfew : ¬2 ^ 8 ≤ roster.keys.length := by
      have := length_keys_le (h roster rfl)
      have hmax : maxCoauthors = 16 := rfl
      omega
    intro w hroom hcapacity
    show w.coauthors (some roster) = _
    rw [Writer.coauthors, Except.refuseIf_of_not hfew]
    exact (appends_raw [1]).bind ((appends_raw [roster.threshold]).bind
      ((appends_raw [UInt8.ofNat roster.keys.length]).bind
        (appends_each (fun key : Digest ↦ appends_raw key.toList) roster.keys))) w hroom hcapacity

/-- **The writer of a plan appends its bytes.** -/
theorem appends_writePlan {args : PlanArgs} (policy : List UInt8) (count : UInt32)
    (h : ∀ roster, args.coauthors = some roster → checkCoauthors roster = .ok ()) :
    Appends (writePlan args policy count) (planBytes args policy count) := by
  refine (appends_blob _).bind ?_
  refine (appends_blob _).bind ?_
  refine (appends_raw _).bind ?_
  refine (appends_blob _).bind ?_
  refine (appends_raw _).bind ?_
  refine (appends_each (fun url ↦ appends_blob (utf8 url)) args.authorityUrls).bind ?_
  refine (appends_recipient _).bind ?_
  refine (appends_raw _).bind ?_
  refine (appends_raw _).bind ?_
  refine (appends_raw _).bind ?_
  refine (appends_raw _).bind ?_
  refine (appends_optional _).bind ?_
  refine (appends_optional _).bind ?_
  refine (appends_optional _).bind ?_
  exact appends_coauthors h

/-- **A message of the right size is written**, unless it is too large. -/
theorem writeMessage_eq {body : Writer → Except WireError Writer} {bytes : List UInt8} {size : ℕ}
    (kind : UInt8) (h : Appends body bytes) (hsize : size = 1 + bytes.length) :
    writeMessage kind size body =
      if size ≤ maxMessage then .ok (kind :: bytes) else .error .tooLarge := by
  split_ifs with hmax
  · have hstart := appends_raw [kind] ⟨size, []⟩ (by rw [hsize]; simp) hmax
    have hbody := h ⟨size, [kind]⟩ (by rw [hsize]; simp) hmax
    have hnew : Writer.new kind size = .ok ⟨size, [kind]⟩ := by
      rw [Writer.new, Except.refuseIf_of_not (not_lt.mpr hmax)]
      exact hstart
    rw [writeMessage, hnew, Except.ok_bind, hbody, Except.ok_bind, Writer.finish]
    refine if_pos ?_
    show ([kind] ++ bytes).length = size
    rw [hsize, List.length_append]
    rfl
  · rw [writeMessage, Writer.new, refuseIf, if_pos (not_le.mp hmax)]
    rfl

/-- A writer that appends as many bytes as were announced never complains about the size. -/
theorem writeMessage_ne_badSize {body : Writer → Except WireError Writer} {bytes : List UInt8}
    {size : ℕ} (kind : UInt8) (h : Appends body bytes) (hsize : size = 1 + bytes.length) :
    writeMessage kind size body ≠ .error .badSize := by
  rw [writeMessage_eq kind h hsize]
  split_ifs <;> exact nofun

/-- **What was written is the kind and the bytes of the body.** -/
theorem of_writeMessage {body : Writer → Except WireError Writer} {bytes buf : List UInt8} {size : ℕ}
    {kind : UInt8} (h : Appends body bytes) (hsize : size = 1 + bytes.length)
    (hbuf : writeMessage kind size body = .ok buf) :
    buf = kind :: bytes ∧ bytes.length < maxMessage := by
  rw [writeMessage_eq kind h hsize] at hbuf
  split_ifs at hbuf with hmax
  exact ⟨(Except.ok.inj hbuf).symm, by omega⟩

end Writing

/-! ### The parser reads them back -/

namespace Reader

/-- A parser **reads** a value from bytes if it takes them off the front and gives the value. Every part of a
message is read. -/
theorem reads_u8 (b : UInt8) : Parser.Reads u8 [b] b := by
  have htake : Parser.Reads (take 1) [b] [b] := Parser.Reads.take _ rfl
  exact htake.bind_lift rfl

theorem reads_array {n : ℕ} (v : List.Vector UInt8 n) : Parser.Reads (array n) v.toList v := by
  have htake : Parser.Reads (take n) v.toList v.toList := Parser.Reads.take _ v.toList_length
  exact htake.bind_lift (by rw [toVector?_toList]; rfl)

theorem reads_u32 (x : UInt32) : Parser.Reads u32 (toLeBytes x) x := by
  have htake : Parser.Reads (take 4) (toLeBytes x) (toLeBytes x) :=
    Parser.Reads.take _ (length_toLeBytes x)
  exact htake.bind_lift (by rw [ofLeBytes?_toLeBytes]; rfl)

theorem reads_u64 (x : UInt64) : Parser.Reads u64 (toLeBytes x) x := by
  have htake : Parser.Reads (take 8) (toLeBytes x) (toLeBytes x) :=
    Parser.Reads.take _ (length_toLeBytes x)
  exact htake.bind_lift (by rw [ofLeBytes?_toLeBytes]; rfl)

/-- A blob is read if it is not longer than a message. -/
theorem reads_blob {v : List UInt8} (h : v.length ≤ maxMessage) : Parser.Reads blob (blobBytes v) v := by
  have hmax : maxMessage = 1048576 := rfl
  have hlen : (UInt32.ofNat v.length).toNat = v.length := UInt32.toNat_ofNat_of_lt' (by
    show v.length < 2 ^ 32
    omega)
  refine (reads_u32 _).bind (Parser.Reads.lift_bind (Except.refuseIf_of_not ?_ _) (Parser.Reads.take _ hlen.symm))
  rw [hlen]
  exact not_lt.mpr h

theorem reads_text {s : String} (h : (utf8 s).length ≤ maxMessage) :
    Parser.Reads text (blobBytes (utf8 s)) s :=
  (reads_blob h).bind_lift (by rw [fromUtf8?_eq_some_iff.mpr rfl]; rfl)

theorem reads_recipient (r : Recipient) : Parser.Reads recipient (recipientBytes r) r := by
  cases r with
  | none =>
    have hof : recipientOf RecipientKind.none = pure .none := rfl
    exact (reads_u8 RecipientKind.none).bind (hof ▸ Parser.Reads.pure _)
  | identity publicKey =>
    have hof : recipientOf RecipientKind.identity = array 32 >>= fun key ↦ pure (.identity key) := rfl
    exact (reads_u8 RecipientKind.identity).bind (hof ▸ (reads_array publicKey).bind_pure _)
  | hybrid publicKey =>
    have hof : recipientOf RecipientKind.hybrid = array _ >>= fun key ↦ pure (.hybrid key) := rfl
    exact (reads_u8 RecipientKind.hybrid).bind (hof ▸ (reads_array publicKey).bind_pure _)
  | hardwareHybrid publicKey =>
    have hof : recipientOf RecipientKind.hardwareHybrid =
        array _ >>= fun key ↦ pure (.hardwareHybrid key) := rfl
    exact (reads_u8 RecipientKind.hardwareHybrid).bind (hof ▸ (reads_array publicKey).bind_pure _)
  | claim secret =>
    have hof : recipientOf RecipientKind.claim = array 32 >>= fun key ↦ pure (.claim ⟨key⟩) := rfl
    exact (reads_u8 RecipientKind.claim).bind (hof ▸ (reads_array secret.expose).bind_pure _)

/-- An optional blob has a flag in front of it. -/
theorem reads_optional (what : String) {bytes : Option (List UInt8)}
    (h : (optionalBytes bytes).length ≤ maxMessage) :
    Parser.Reads (optional what) (optionalBytes bytes) bytes := by
  cases bytes with
  | none =>
    have hof : optionalOf what 0 = pure none := rfl
    exact (reads_u8 0).bind (hof ▸ Parser.Reads.pure _)
  | some bytes =>
    have hof : optionalOf what 1 = blob >>= fun bytes ↦ pure (some bytes) := rfl
    have hlen : bytes.length ≤ maxMessage := by
      rw [optionalBytes, List.length_append, length_blobBytes] at h
      omega
    exact (reads_u8 1).bind (hof ▸ (reads_blob hlen).bind_pure _)

/-- A checked roster is read. -/
theorem reads_roster {r : Coauthors} (h : checkCoauthors r = .ok ()) :
    Parser.Reads roster ([r.threshold] ++ ([UInt8.ofNat r.keys.length] ++
      r.keys.flatMap List.Vector.toList)) r := by
  have hfew := length_keys_le h
  have hmax : maxCoauthors = 16 := rfl
  have hcount : (UInt8.ofNat r.keys.length).toNat = r.keys.length :=
    UInt8.toNat_ofNat_of_lt' (by
      show r.keys.length < 2 ^ 8
      omega)
  have hvalid : ((checkCoauthors ⟨r.threshold, r.keys⟩).mapError fun _ ↦
      WireError.badValue "состав соавторов") = .ok () := by
    rw [h]
    rfl
  refine (reads_u8 _).bind ((reads_u8 _).bind ?_)
  refine Parser.Reads.lift_bind (Except.refuseIf_of_not (by rw [hcount]; exact not_lt.mpr hfew) _) ?_
  rw [hcount, ← List.append_nil (r.keys.flatMap _)]
  refine (Parser.Reads.times fun key _ ↦ reads_array key).bind ?_
  exact Parser.Reads.lift_bind hvalid (Parser.Reads.pure _)

theorem reads_coauthors {coauthors' : Option Coauthors}
    (h : ∀ r, coauthors' = some r → checkCoauthors r = .ok ()) :
    Parser.Reads coauthors (coauthorsBytes coauthors') coauthors' := by
  cases coauthors' with
  | none =>
    refine (reads_u8 0).bind ?_
    rw [show coauthorsOf 0 = pure none from rfl]
    exact Parser.Reads.pure _
  | some r =>
    refine (reads_u8 1).bind ?_
    rw [show coauthorsOf 1 = roster >>= fun r ↦ pure (some r) from rfl]
    exact (reads_roster (h r rfl)).bind_pure _

end Reader

/-- The request as it is decoded, with its policy in normal form. -/
def PlanArgs.normal (args : PlanArgs) : PlanArgs :=
  { args with policy := PolicyCodec.normal containerVersion args.policy }

/-- The message as it is decoded. -/
def Request.normal : Request → Request
  | .plan args => .plan args.normal
  | .assemble sealed => .assemble sealed

namespace Reader

/-- An address is not longer than the addresses together. -/
theorem length_le_length_urls {urls : List String} {url : String} (h : url ∈ urls) :
    (utf8 url).length ≤ (urls.flatMap fun url ↦ blobBytes (utf8 url)).length := by
  have hpart : blobBytes (utf8 url) ∈ urls.map fun url ↦ blobBytes (utf8 url) :=
    List.mem_map_of_mem h
  have hlen := (List.sublist_flatten_of_mem hpart).length_le
  rw [length_blobBytes, ← List.flatMap_def] at hlen
  omega

theorem length_urls_le (urls : List String) :
    urls.length ≤ (urls.flatMap fun url ↦ blobBytes (utf8 url)).length := by
  induction urls with
  | nil => exact Nat.zero_le _
  | cons url urls ih =>
    rw [List.flatMap_cons, List.length_append, length_blobBytes, List.length_cons]
    omega

/-- **A plan is read from the bytes that its writer appends.** -/
theorem reads_plan {args : PlanArgs} {policy : List UInt8} {count : UInt32}
    (hpolicy : PolicyCodec.encode containerVersion args.policy = .ok policy)
    (hcount : count.toNat = args.authorityUrls.length)
    (hcoauthors : ∀ roster, args.coauthors = some roster → checkCoauthors roster = .ok ())
    (hmax : (planBytes args policy count).length ≤ maxMessage) :
    Parser.Reads plan (planBytes args policy count) args.normal := by
  -- no field is longer than the message
  simp only [planBytes, List.length_append, length_blobBytes] at hmax
  have hurls := length_urls_le args.authorityUrls
  have hdecode : ((PolicyCodec.decode supportedReaderVersion policy).mapError fun _ ↦
      WireError.badValue "правила") = .ok args.normal.policy := by
    obtain ⟨policy', hpolicy', -, hread⟩ :=
      PolicyCodec.decode_encode_normal containerVersion args.policy
    obtain rfl := Except.ok.inj (hpolicy.symm.trans hpolicy')
    rw [show supportedReaderVersion = containerVersion from rfl, hread]
    rfl
  have hfew : ¬maxMessage < count.toNat := by omega
  refine (reads_text (by omega)).bind ?_
  refine (reads_blob (by omega)).bind (Parser.Reads.lift_bind hdecode ?_)
  refine (reads_u32 _).bind ?_
  refine (reads_blob (by omega)).bind ?_
  refine (reads_u32 _).bind (Parser.Reads.lift_bind (Except.refuseIf_of_not hfew _) ?_)
  rw [hcount]
  refine (Parser.Reads.times fun url hurl ↦ reads_text ?_).bind ?_
  · have := length_le_length_urls hurl
    omega
  refine (reads_recipient _).bind ?_
  refine (reads_array _).bind ?_
  refine (reads_array _).bind ?_
  refine (reads_array _).bind ?_
  refine (reads_array _).bind ?_
  refine (reads_optional _ (by omega)).bind ?_
  refine (reads_optional _ (by omega)).bind ?_
  refine (reads_optional _ (by omega)).bind ?_
  exact (reads_coauthors hcoauthors).bind_pure _

/-! ### Every parser of the codec is stable -/

/-- A parser is **stable** if it gives the same on a longer input, and leaves the rest. All of them are, as
their parts are. -/
theorem stable_take (n : ℕ) : Parser.Stable (take n) := Parser.Stable.take _ n

theorem stable_u8 : Parser.Stable u8 := (stable_take 1).bind fun _ ↦ Parser.Stable.lift _

theorem stable_array (n : ℕ) : Parser.Stable (array n) :=
  (stable_take n).bind fun _ ↦ Parser.Stable.lift _

theorem stable_u32 : Parser.Stable u32 := (stable_take 4).bind fun _ ↦ Parser.Stable.lift _

theorem stable_u64 : Parser.Stable u64 := (stable_take 8).bind fun _ ↦ Parser.Stable.lift _

theorem stable_blob : Parser.Stable blob :=
  stable_u32.bind fun _ ↦ (Parser.Stable.lift _).bind fun _ ↦ stable_take _

theorem stable_text : Parser.Stable text := stable_blob.bind fun _ ↦ Parser.Stable.lift _

theorem stable_recipient : Parser.Stable recipient := by
  refine stable_u8.bind fun kind ↦ ?_
  unfold recipientOf
  split
  case h_1 => exact Parser.Stable.pure _
  case h_6 => exact Parser.Stable.lift _
  all_goals exact (stable_array _).bind fun _ ↦ Parser.Stable.pure _

theorem stable_optional (what : String) : Parser.Stable (optional what) := by
  refine stable_u8.bind fun mark ↦ ?_
  unfold optionalOf
  split
  · exact Parser.Stable.pure _
  · exact stable_blob.bind fun _ ↦ Parser.Stable.pure _
  · exact Parser.Stable.lift _

theorem stable_roster : Parser.Stable roster := by
  refine stable_u8.bind fun _ ↦ stable_u8.bind fun _ ↦ (Parser.Stable.lift _).bind fun _ ↦ ?_
  exact ((stable_array 32).times _).bind fun _ ↦ (Parser.Stable.lift _).bind fun _ ↦
    Parser.Stable.pure _

theorem stable_coauthors : Parser.Stable coauthors := by
  refine stable_u8.bind fun mark ↦ ?_
  unfold coauthorsOf
  split
  · exact Parser.Stable.pure _
  · exact stable_roster.bind fun _ ↦ Parser.Stable.pure _
  · exact Parser.Stable.lift _

/-- The parsers of the messages are put together from these. -/
theorem stable_plan : Parser.Stable plan := by
  refine stable_text.bind fun _ ↦ stable_blob.bind fun _ ↦ (Parser.Stable.lift _).bind fun _ ↦ ?_
  refine stable_u32.bind fun _ ↦ stable_blob.bind fun _ ↦ stable_u32.bind fun _ ↦ ?_
  refine (Parser.Stable.lift _).bind fun _ ↦ (stable_text.times _).bind fun _ ↦ ?_
  refine stable_recipient.bind fun _ ↦ (stable_array 32).bind fun _ ↦ ?_
  refine (stable_array 32).bind fun _ ↦ (stable_array 32).bind fun _ ↦ ?_
  refine (stable_array 32).bind fun _ ↦ (stable_optional _).bind fun _ ↦ ?_
  refine (stable_optional _).bind fun _ ↦ (stable_optional _).bind fun _ ↦ ?_
  exact stable_coauthors.bind fun _ ↦ Parser.Stable.pure _

theorem stable_request : Parser.Stable request := by
  refine stable_u8.bind fun kind ↦ ?_
  unfold requestOf
  split
  · exact stable_plan.bind fun _ ↦ Parser.Stable.pure _
  · exact stable_u64.bind fun _ ↦ stable_u32.bind fun _ ↦ (stable_array 32).bind fun _ ↦
      Parser.Stable.pure _
  · exact Parser.Stable.lift _

theorem stable_response : Parser.Stable response := by
  refine stable_u8.bind fun kind ↦ ?_
  unfold responseOf
  split
  · exact (stable_array 16).bind fun _ ↦ (stable_array 32).bind fun _ ↦ stable_u32.bind fun _ ↦
      stable_u8.bind fun _ ↦ (Parser.Stable.lift _).bind fun _ ↦ Parser.Stable.pure _
  · exact stable_blob.bind fun _ ↦ stable_blob.bind fun _ ↦ Parser.Stable.pure _
  · exact stable_text.bind fun _ ↦ Parser.Stable.pure _
  · exact Parser.Stable.lift _

end Reader

/-! ### Requests -/

section Requests

/-- The fields of an assembly request. -/
def assembleBytes (sealed : SealedInfo) : List UInt8 :=
  toLeBytes sealed.totalLen ++ (toLeBytes sealed.chunkCount ++ sealed.treeRoot.toList)

/-- The summary of a sealed stream is appended. -/
theorem appends_assemble (sealed : SealedInfo) :
    Appends (fun w ↦ do
      let w ← w.u64 sealed.totalLen
      let w ← w.u32 sealed.chunkCount
      w.raw sealed.treeRoot.toList) (assembleBytes sealed) :=
  (appends_raw _).bind ((appends_raw _).bind (appends_raw _))

/-- It has the size that was announced. -/
theorem assembleSize_eq (sealed : SealedInfo) : assembleSize = 1 + (assembleBytes sealed).length := by
  simp only [assembleBytes, List.length_append, length_toLeBytes, List.Vector.toList_length]
  rfl

/-- **No request has another size than it says.** -/
theorem encodeRequest_ne_badSize (request : Request) : encodeRequest request ≠ .error .badSize := by
  cases request with
  | plan args =>
    refine Except.bind_ne_error (Except.mapError_ne_error nofun _) fun policy _ ↦ ?_
    refine Except.bind_ne_error (by cases UInt32.tryFrom _ <;> exact nofun) fun count _ ↦ ?_
    refine Except.bind_ne_error (planSize_ne_badSize _ _) fun size hsize ↦ ?_
    obtain ⟨hsize, hvalid⟩ := eq_of_planSize count hsize
    exact writeMessage_ne_badSize _ (appends_writePlan policy count hvalid) hsize
  | assemble sealed => exact writeMessage_ne_badSize _ (appends_assemble sealed) (assembleSize_eq sealed)

/-- What was encoded is read back. -/
theorem reads_of_encodeRequest {request : Request} {buf : List UInt8}
    (h : encodeRequest request = .ok buf) : Parser.Reads Reader.request buf request.normal := by
  cases request with
  | plan args =>
    obtain ⟨policy, hpolicy, h⟩ := Except.bind_eq_ok_iff.mp h
    obtain ⟨count, hcount, h⟩ := Except.bind_eq_ok_iff.mp h
    obtain ⟨size, hsize, h⟩ := Except.bind_eq_ok_iff.mp h
    rw [Except.mapError_eq_ok_iff] at hpolicy
    rw [Except.okOr_eq_ok_iff, UInt32.tryFrom_eq_some_iff] at hcount
    obtain ⟨hsize, hvalid⟩ := eq_of_planSize count hsize
    obtain ⟨rfl, hmax⟩ := of_writeMessage (appends_writePlan policy count hvalid) hsize h
    refine (Reader.reads_u8 Kind.plan).bind ?_
    rw [show Reader.requestOf Kind.plan = Reader.plan >>= fun args ↦ pure (.plan args) from rfl]
    exact (Reader.reads_plan hpolicy hcount hvalid hmax.le).bind_pure _
  | assemble sealed =>
    obtain ⟨rfl, -⟩ := of_writeMessage (appends_assemble sealed) (assembleSize_eq sealed) h
    refine (Reader.reads_u8 Kind.assemble).bind ?_
    rw [show Reader.requestOf Kind.assemble = Reader.u64 >>= fun totalLen ↦ Reader.u32 >>=
      fun chunkCount ↦ Reader.array 32 >>= fun treeRoot ↦
        pure (.assemble ⟨totalLen, chunkCount, treeRoot⟩) from rfl]
    refine (Reader.reads_u64 _).bind ((Reader.reads_u32 _).bind ?_)
    exact (Reader.reads_array sealed.treeRoot).bind_pure _

/-- A request and its normal form are encoded alike. -/
theorem encodeRequest_normal (request : Request) :
    encodeRequest request.normal = encodeRequest request := by
  cases request with
  | plan args =>
    have hpolicy : (PolicyCodec.encode containerVersion args.normal.policy).mapError (fun _ ↦
        WireError.badValue "правила") =
          (PolicyCodec.encode containerVersion args.policy).mapError fun _ ↦ .badValue "правила" :=
      congrArg _ (PolicyCodec.encode_normal containerVersion args.policy)
    exact Except.bind_congr_of_eq hpolicy fun _ ↦ rfl
  | assemble sealed => rfl

end Requests

/-! ### Responses -/

section Responses

/-- The fields of a response to a planning request. -/
def plannedBytes (planned : Planned) : List UInt8 :=
  planned.fileId.toList ++ (planned.payloadKey.expose.toList ++
    (toLeBytes planned.chunkSize ++ [aeadToWire planned.aead]))

/-- An answer to a plan is appended. -/
theorem appends_planned (planned : Planned) :
    Appends (fun w ↦ do
      let w ← w.raw planned.fileId.toList
      let w ← w.raw planned.payloadKey.expose.toList
      let w ← w.u32 planned.chunkSize
      w.u8 (aeadToWire planned.aead)) (plannedBytes planned) :=
  (appends_raw _).bind ((appends_raw _).bind ((appends_raw _).bind (appends_raw _)))

/-- It has the size that was announced. -/
theorem plannedSize_eq (planned : Planned) : plannedSize = 1 + (plannedBytes planned).length := by
  simp only [plannedBytes, List.length_append, length_toLeBytes, List.Vector.toList_length]
  rfl

/-- The fields of a response to an assembly request. -/
def doneBytes (done : Done) : List UInt8 := blobBytes done.header ++ blobBytes done.contentDesc

/-- So has the answer at the end. -/
theorem eq_of_doneSize {done : Done} {size₁ size₂ : ℕ} (h₁ : addBlob 1 done.header.length = .ok size₁)
    (h₂ : addBlob size₁ done.contentDesc.length = .ok size₂) :
    size₂ = 1 + (doneBytes done).length := by
  rw [eq_of_addBlob h₂, eq_of_addBlob h₁, doneBytes, List.length_append, length_blobBytes,
    length_blobBytes]
  omega

/-- And the text of a failure. -/
theorem eq_of_failedSize {text : String} {size : ℕ} (h : addBlob 1 (utf8 text).length = .ok size) :
    size = 1 + (blobBytes (utf8 text)).length := by
  rw [eq_of_addBlob h, length_blobBytes]

/-- **No answer has another size than it says.** -/
theorem encodeResponse_ne_badSize (response : Response) :
    encodeResponse response ≠ .error .badSize := by
  cases response with
  | planned planned =>
    exact writeMessage_ne_badSize _ (appends_planned planned) (plannedSize_eq planned)
  | done done =>
    refine Except.bind_ne_error (addBlob_ne_badSize _ _) fun size₁ h₁ ↦ ?_
    refine Except.bind_ne_error (addBlob_ne_badSize _ _) fun size₂ h₂ ↦ ?_
    exact writeMessage_ne_badSize _ ((appends_blob _).bind (appends_blob _)) (eq_of_doneSize h₁ h₂)
  | failed text =>
    refine Except.bind_ne_error (addBlob_ne_badSize _ _) fun size h ↦ ?_
    exact writeMessage_ne_badSize _ (appends_blob _) (eq_of_failedSize h)

/-- A cipher is known from its number on the wire. -/
theorem aeadFromWire_aeadToWire (alg : AeadAlg) : aeadFromWire (aeadToWire alg) = .ok alg := by
  cases alg <;> rfl

/-- What was encoded is read back. -/
theorem reads_of_encodeResponse {response : Response} {buf : List UInt8}
    (h : encodeResponse response = .ok buf) : Parser.Reads Reader.response buf response := by
  cases response with
  | planned planned =>
    obtain ⟨rfl, -⟩ := of_writeMessage (appends_planned planned) (plannedSize_eq planned) h
    refine (Reader.reads_u8 Kind.planned).bind ?_
    rw [show Reader.responseOf Kind.planned = Reader.array 16 >>= fun fileId ↦ Reader.array 32 >>=
      fun payloadKey ↦ Reader.u32 >>= fun chunkSize ↦ Reader.u8 >>= fun aead ↦
        Parser.lift (aeadFromWire aead) >>= fun aead ↦
          pure (.planned ⟨fileId, ⟨payloadKey⟩, chunkSize, aead⟩) from rfl]
    refine (Reader.reads_array _).bind ((Reader.reads_array _).bind ((Reader.reads_u32 _).bind ?_))
    rw [← List.append_nil [aeadToWire planned.aead]]
    refine (Reader.reads_u8 _).bind ?_
    exact Parser.Reads.lift_bind (aeadFromWire_aeadToWire planned.aead) (Parser.Reads.pure _)
  | done done =>
    obtain ⟨size₁, h₁, h⟩ := Except.bind_eq_ok_iff.mp h
    obtain ⟨size₂, h₂, h⟩ := Except.bind_eq_ok_iff.mp h
    obtain ⟨rfl, hmax⟩ :=
      of_writeMessage ((appends_blob _).bind (appends_blob _)) (eq_of_doneSize h₁ h₂) h
    rw [List.length_append, length_blobBytes, length_blobBytes] at hmax
    refine (Reader.reads_u8 Kind.done).bind ?_
    rw [show Reader.responseOf Kind.done = Reader.blob >>= fun header ↦ Reader.blob >>=
      fun contentDesc ↦ pure (.done ⟨header, contentDesc⟩) from rfl]
    exact (Reader.reads_blob (by omega)).bind ((Reader.reads_blob (by omega)).bind_pure _)
  | failed text =>
    obtain ⟨size, hsize, h⟩ := Except.bind_eq_ok_iff.mp h
    obtain ⟨rfl, hmax⟩ := of_writeMessage (appends_blob _) (eq_of_failedSize hsize) h
    rw [length_blobBytes] at hmax
    refine (Reader.reads_u8 Kind.failed).bind ?_
    rw [show Reader.responseOf Kind.failed = Reader.text >>= fun text ↦ pure (.failed text) from rfl]
    exact (Reader.reads_text (by omega)).bind_pure _

end Responses

/-! ### The codec -/

/-- **The pipe codec is exact.** No message is refused for its computed size. What was encoded is decoded
to the same value, with the policy in normal form, which is encoded to the same message; no proper front
and no continuation of a message is decoded. And the packer does the same with what was decoded as with
what was encoded. -/
theorem pipe_codec_exact :
    (∀ request, encodeRequest request ≠ .error .badSize) ∧
      (∀ response, encodeResponse response ≠ .error .badSize) ∧
      (∀ request buf, encodeRequest request = .ok buf →
        Exact decodeRequest buf request.normal ∧ encodeRequest request.normal = .ok buf) ∧
      (∀ response buf, encodeResponse response = .ok buf → Exact decodeResponse buf response) ∧
      ∀ {γ : Type} (sha : Sha2) (c : XChaCha) (k : Kems) (rng : Rng γ) (request : PackRequest)
        (keys : PublicKeys) (buf : List UInt8),
        encodeRequest (.plan (.fromParts request keys)) = .ok buf →
          ∃ args, decodeRequest buf = .ok (.plan args) ∧
            (∀ g, plan sha rng args.request g = plan sha rng request g) ∧
            ∀ (s : Session) sealed g, s.assemble sha c k rng args.request args.keys sealed g =
              s.assemble sha c k rng request keys sealed g := by
  have hexact : ∀ request buf, encodeRequest request = .ok buf →
      Exact decodeRequest buf request.normal := fun request buf h ↦
    Parser.exact_runWhole _ Reader.stable_request (reads_of_encodeRequest h)
  refine ⟨encodeRequest_ne_badSize, encodeResponse_ne_badSize, ?_, ?_, ?_⟩
  · intro request buf h
    exact ⟨hexact request buf h, (encodeRequest_normal request).trans h⟩
  · intro response buf h
    exact Parser.exact_runWhole _ Reader.stable_response (reads_of_encodeResponse h)
  · intro γ sha c k rng request keys buf h
    refine ⟨(PlanArgs.fromParts request keys).normal, (hexact _ buf h).decodes, fun g ↦ rfl, ?_⟩
    intro s sealed g
    exact assemble_normal s request keys sealed g

/-- The sample request and its keys are encoded, and the packer reads the same plan from the message. -/
theorem pipe_codec_exact_sampleRequest :
    ∃ buf args, encodeRequest (.plan (.fromParts sampleRequest sampleKeys)) = .ok buf ∧
      decodeRequest buf = .ok (.plan args) ∧
      sampleSession.assemble sampleSha sampleCipher sampleKems sampleRng args.request args.keys
          sampleSealed () =
        sampleSession.assemble sampleSha sampleCipher sampleKems sampleRng sampleRequest sampleKeys
          sampleSealed () := by
  have hok : (encodeRequest (.plan (.fromParts sampleRequest sampleKeys))).isOk = true := by
    decide +kernel
  rcases hbuf : encodeRequest (.plan (.fromParts sampleRequest sampleKeys)) with _ | buf
  · rw [hbuf] at hok
    cases hok
  · obtain ⟨args, hargs, -, hassemble⟩ := pipe_codec_exact.2.2.2.2 sampleSha sampleCipher sampleKems
      sampleRng sampleRequest sampleKeys buf hbuf
    exact ⟨buf, args, rfl, hargs, hassemble sampleSession sampleSealed ()⟩

end OpenCrate.Engine.Wire
