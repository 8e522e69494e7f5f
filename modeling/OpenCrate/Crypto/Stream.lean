import OpenCrate.Crypto.Aead
import OpenCrate.Data.Chunks

/-!
# Streaming encryption

`stream` of `oc-crypto`: the one loop that cuts a stream into chunks. A source gives as many bytes as
it has, so that the loop fills its buffer before it seals (`fill`), and only an empty read is the end
of the input.

What a run writes is said without the source (`sealPieces`): the loop follows it for every source
that delivers the bytes (`Delivers`), however the reads are split.
-/

namespace OpenCrate.Crypto

open Except (refuseIf okOr)

/-- Result of processing a stream. -/
@[ext] structure Sealed where
  totalLen : UInt64
  chunkCount : UInt32
  treeRoot : Digest
  deriving DecidableEq

/-- Stream failure: ours or the host's. -/
inductive StreamError (ε : Type) where
  | crypto (e : CryptoError)
  | host (e : ε)
  | tooLarge
  deriving DecidableEq

/-- A source over states `σ`: what it wrote into a buffer of the given room. -/
abbrev Source (ε σ : Type) := σ → ℕ → Except ε (List UInt8 × σ)

/-- A sink over states `τ`. -/
abbrev Sink (ε τ : Type) := τ → List UInt8 → Except ε τ

/-- What a run is called with. -/
structure StreamCall where
  key : PayloadKey
  alg : AeadAlg
  fileId : List.Vector UInt8 16
  chunkSize : UInt32

/-- The states of what a run reads, writes and draws from. -/
structure Streams (σ τ γ : Type) where
  source : σ
  sink : τ
  rng : γ

/-- The variables of the loop. -/
structure Progress (σ τ γ : Type) extends Streams σ τ γ where
  leaves : List Leaf
  totalLen : UInt64
  index : UInt32

section Run

variable {ε σ τ γ : Type} (sha : Sha2) (blake3 : List UInt8 → Digest) (c : XChaCha)
  (call : StreamCall) (rng : Rng γ) (source : Source ε σ) (sink : Sink ε τ)

/-- Read until the buffer is full or the input ends. -/
def fill (capacity : ℕ) (s : σ) (filled : List UInt8) :
    Except (StreamError ε) (List UInt8 × σ) :=
  if filled.length < capacity then
    match source s (capacity - filled.length) with
    | .error e => .error (.host e)
    | .ok (got, s) => if _h : got = [] then .ok (filled, s) else fill capacity s (filled ++ got)
  else .ok (filled, s)
termination_by capacity - filled.length
decreasing_by
  have hpos : 0 < got.length := List.length_pos_iff.mpr _h
  rw [List.length_append]
  omega

/-- One round of the loop, and whether it is the last one. -/
def sealStep (st : Progress σ τ γ) : Except (StreamError ε) (Progress σ τ γ × Bool) := do
  let capacity := call.chunkSize.toNat
  let (piece, source') ← fill source capacity st.source []
  refuseIf (capacity < piece.length) (.crypto .badLength)
  -- an empty file gets its chunk, and a file of full chunks no empty one behind them
  if piece = [] ∧ 0 < st.index then .ok ({ st with source := source' }, true)
  else
    let (nonceSeed, rng') := rng.fillBytes st.rng nonceLen
    let (nonce, framed, leaf) ←
      (sealChunkHedged sha blake3 c call.key call.alg call.fileId st.index nonceSeed piece).mapError
        .crypto
    let sink' ← (sink st.sink nonce.toList).mapError .host
    let sink' ← (sink sink' framed).mapError .host
    let totalLen ← okOr (st.totalLen.checkedAdd (UInt64.ofNat piece.length)) .tooLarge
    let index ← okOr (st.index.checkedAdd 1) .tooLarge
    .ok (⟨⟨source', sink', rng'⟩, st.leaves ++ [leaf], totalLen, index⟩, piece.length < capacity)

variable {sha blake3 c call rng source sink} in
/-- A round that is not the last one counts a chunk. -/
theorem index_of_sealStep {st st' : Progress σ τ γ}
    (h : sealStep sha blake3 c call rng source sink st = .ok (st', false)) :
    st'.index.toNat = st.index.toNat + 1 := by
  obtain ⟨⟨piece, source'⟩, -, h⟩ := Except.bind_eq_ok_iff.mp h
  obtain ⟨-, h⟩ := Except.check_bind_eq_ok_iff.mp h
  split_ifs at h with hend
  · cases h
  · simp only [Except.bind_eq_ok_iff, Except.okOr_eq_ok_iff, UInt32.checkedAdd,
      UInt32.tryFrom_eq_some_iff, Prod.exists, Except.ok.injEq, Prod.mk.injEq] at h
    obtain ⟨_, _, _, -, _, -, _, -, _, -, index, hindex, rfl, -⟩ := h
    exact hindex

/-- The loop. -/
def sealLoop (st : Progress σ τ γ) : Except (StreamError ε) (Progress σ τ γ) :=
  match _h : sealStep sha blake3 c call rng source sink st with
  | .error e => .error e
  | .ok (st', true) => .ok st'
  | .ok (st', false) => sealLoop st'
termination_by 2 ^ 32 - st.index.toNat
decreasing_by
  have hindex := index_of_sealStep _h
  have hlt := st'.index.toNat_lt
  omega

/-- Encrypt a stream in chunks and deliver the frames to the sink. -/
def sealChunks (s : Streams σ τ γ) : Except (StreamError ε) (Sealed × Streams σ τ γ) := do
  refuseIf (call.chunkSize.toNat = 0) (.crypto .badLength)
  let st ← sealLoop sha blake3 c call rng source sink ⟨s, [], 0, 0⟩
  let tree ← (MerkleTree.build blake3 st.leaves).mapError .crypto
  .ok (⟨st.totalLen, st.index, tree.root blake3⟩, st.toStreams)

end Run

/-! ### Sources -/

section Sources

variable {ε σ : Type} {source : Source ε σ} {s : σ} {l : List UInt8}

/-- A source **delivers** bytes: every read gives some of those that are left, in any number that
fits, and an empty read says that none are left. The relation `left` says what a state has left. -/
def Delivers (source : Source ε σ) (s : σ) (l : List UInt8) : Prop :=
  ∃ left : σ → List UInt8 → Prop, left s l ∧
    ∀ s l room, left s l → 0 < room → ∃ got s' l', source s room = .ok (got, s') ∧
      got.length ≤ room ∧ l = got ++ l' ∧ (got = [] → l = []) ∧ (got ≠ [] → left s' l')

/-- One read of a source that delivers. -/
theorem Delivers.read (h : Delivers source s l) {room : ℕ} (hroom : 0 < room) :
    ∃ got s' l', source s room = .ok (got, s') ∧ got.length ≤ room ∧ l = got ++ l' ∧
      (got = [] → l = []) ∧ (got ≠ [] → Delivers source s' l') := by
  obtain ⟨left, hleft, hread⟩ := h
  obtain ⟨got, s', l', hsource, hfits, hsplit, hend, hrest⟩ := hread s l room hleft hroom
  exact ⟨got, s', l', hsource, hfits, hsplit, hend, fun hgot ↦ ⟨left, hrest hgot, hread⟩⟩

/-- The source that gives the first bytes of a list. -/
def listSource : Source ε (List UInt8) := fun l room ↦ .ok (l.take room, l.drop room)

/-- A list that is read in one piece is delivered whole. -/
theorem delivers_listSource (l : List UInt8) : Delivers (listSource : Source ε _) l l := by
  refine ⟨fun s l ↦ s = l, rfl, ?_⟩
  rintro s l room rfl hroom
  refine ⟨s.take room, s.drop room, s.drop room, rfl, List.length_take_le _ _,
    (List.take_append_drop _ _).symm, ?_, fun _ ↦ rfl⟩
  intro hempty
  rcases List.take_eq_nil_iff.mp hempty with hzero | hnil
  · omega
  · exact hnil

/-- A source that is read in short pieces: no read gives more than so many bytes. -/
def Source.short (most : ℕ) (source : Source ε σ) : Source ε σ := fun s room ↦ source s (min most room)

/-- In short pieces the same bytes are delivered. -/
theorem Delivers.short (h : Delivers source s l) {most : ℕ} (hmost : 0 < most) :
    Delivers (source.short most) s l := by
  obtain ⟨left, hleft, hread⟩ := h
  refine ⟨left, hleft, fun s l room hl hroom ↦ ?_⟩
  obtain ⟨got, s', l', hsource, hfits, hrest⟩ := hread s l (min most room) hl (lt_min hmost hroom)
  exact ⟨got, s', l', hsource, hfits.trans (min_le_right _ _), hrest⟩

/-- **The buffer is filled**, whatever the reads are: it gets the first bytes that are left, and the
source has the others if the buffer is full. -/
theorem fill_of_delivers (capacity : ℕ) (filled : List UInt8) (h : Delivers source s l) :
    ∃ s', fill source capacity s filled = .ok (filled ++ l.take (capacity - filled.length), s') ∧
      (capacity ≤ filled.length + l.length →
        Delivers source s' (l.drop (capacity - filled.length))) := by
  -- the cases of the loop: the source fails, it ends, it gives something, or the buffer is full
  fun_induction fill source capacity s filled generalizing l with
  | case1 s filled hroom e he =>
    obtain ⟨got, s', l', hsource, -⟩ := h.read (Nat.sub_pos_of_lt hroom)
    rw [he] at hsource
    cases hsource
  | case2 s filled hroom s' hread =>
    obtain ⟨got', s'', l', hsource, -, -, hend, -⟩ := h.read (Nat.sub_pos_of_lt hroom)
    obtain ⟨rfl, rfl⟩ := Prod.mk.inj (Except.ok.inj (hread.symm.trans hsource))
    obtain rfl := hend rfl
    refine ⟨s', by rw [List.take_nil, List.append_nil], ?_⟩
    intro hfull
    rw [List.length_nil] at hfull
    omega
  | case3 s filled hroom got s' hread hgot ih =>
    obtain ⟨got', s'', l', hsource, hfits, rfl, -, hrest⟩ := h.read (Nat.sub_pos_of_lt hroom)
    obtain ⟨rfl, rfl⟩ := Prod.mk.inj (Except.ok.inj (hread.symm.trans hsource))
    obtain ⟨s'', hfill, hleft⟩ := ih (hrest hgot)
    have hlen : capacity - (filled ++ got).length = capacity - filled.length - got.length := by
      rw [List.length_append]
      omega
    refine ⟨s'', ?_, ?_⟩
    · rw [hfill, hlen, List.append_assoc, List.take_append, List.take_of_length_le hfits]
    · intro hfull
      rw [List.drop_append, List.drop_of_length_le hfits, List.nil_append, ← hlen]
      refine hleft ?_
      rw [List.length_append] at hfull ⊢
      omega
  | case4 s filled hroom =>
    have hzero : capacity - filled.length = 0 := by omega
    exact ⟨s, by rw [hzero, List.take_zero, List.append_nil], fun _ ↦ by rwa [hzero, List.drop_zero]⟩

end Sources

/-! ### What a run writes -/

section Pieces

variable {γ : Type} (sha : Sha2) (blake3 : List UInt8 → Digest) (c : XChaCha) (call : StreamCall)
  (rng : Rng γ)

/-- A sealed chunk: the frame that is written, and the leaf. -/
structure Chunk where
  nonce : Nonce
  framed : List UInt8
  leaf : Leaf

/-- What is written of a chunk. -/
def Chunk.frame (chunk : Chunk) : List UInt8 := chunk.nonce.toList ++ chunk.framed

/-- Seal pieces in order, from a position on, each with the next seed. -/
def sealPieces : ℕ → γ → List (List UInt8) → Except CryptoError (List Chunk × γ)
  | _, g, [] => .ok ([], g)
  | index, g, piece :: rest => do
    let (nonceSeed, g) := rng.fillBytes g nonceLen
    let (nonce, framed, leaf) ← sealChunkHedged sha blake3 c call.key call.alg call.fileId
      (UInt32.ofNat index) nonceSeed piece
    let (chunks, g) ← sealPieces (index + 1) g rest
    .ok (⟨nonce, framed, leaf⟩ :: chunks, g)

variable {sha blake3 c call rng}

/-- Every piece is sealed at its position, and nothing else is. -/
theorem getElem?_of_sealPieces {parts : List (List UInt8)} {index : ℕ} {g g' : γ}
    {chunks : List Chunk} (h : sealPieces sha blake3 c call rng index g parts = .ok (chunks, g')) :
    chunks.length = parts.length ∧ ∀ i part, parts[i]? = some part → ∃ (chunk : Chunk) (nonceSeed : Nonce),
      chunks[i]? = some chunk ∧
        sealChunkHedged sha blake3 c call.key call.alg call.fileId (UInt32.ofNat (index + i))
          nonceSeed part = .ok (chunk.nonce, chunk.framed, chunk.leaf) := by
  induction parts generalizing index g chunks with
  | nil =>
    obtain ⟨rfl, -⟩ := Prod.mk.inj (Except.ok.inj h)
    exact ⟨rfl, fun i part hpart ↦ by simp at hpart⟩
  | cons part parts ih =>
    rw [sealPieces] at h
    obtain ⟨⟨nonce, framed, leaf⟩, hchunk, h⟩ := Except.bind_eq_ok_iff.mp h
    obtain ⟨⟨rest, g''⟩, hrest, h⟩ := Except.bind_eq_ok_iff.mp h
    obtain ⟨rfl, rfl⟩ := Prod.mk.inj (Except.ok.inj h)
    obtain ⟨hlen, hget⟩ := ih hrest
    refine ⟨by rw [List.length_cons, List.length_cons, hlen], ?_⟩
    intro i part' hpart
    rcases i with - | i
    · obtain rfl := Option.some_inj.mp hpart
      exact ⟨⟨nonce, framed, leaf⟩, _, rfl, hchunk⟩
    · obtain ⟨chunk, nonceSeed, hi, hsealed⟩ := hget i part' hpart
      refine ⟨chunk, nonceSeed, hi, ?_⟩
      rwa [show index + (i + 1) = index + 1 + i by omega]

end Pieces

/-! ### The loop -/

section Loop

variable {ε σ γ : Type} (sha : Sha2) (blake3 : List UInt8 → Digest) {c : XChaCha}
  {call : StreamCall} (rng : Rng γ) {source : Source ε σ} {l : List UInt8}

/-- The sink that keeps what it is given. -/
def collect : Sink ε (List UInt8) := fun out bytes ↦ .ok (out ++ bytes)

/-- **A round of the loop** over a source with bytes left, or at the start: the next piece is sealed
at the position, and what can fail is the counting. -/
theorem sealStep_of_delivers (hc : c.Lawful) (halg : call.alg.ensureSupported = .ok ())
    {st : Progress σ (List UInt8) γ} (h : Delivers source st.source l)
    (hmore : l ≠ [] ∨ st.index = 0) (hsize : 0 < call.chunkSize.toNat) :
    ∃ (s' : σ) (chunk : Chunk), sealChunkHedged sha blake3 c call.key call.alg call.fileId st.index
        (rng.fillBytes st.rng nonceLen).1 (l.take call.chunkSize.toNat) =
          .ok (chunk.nonce, chunk.framed, chunk.leaf) ∧
      (call.chunkSize.toNat ≤ l.length → Delivers source s' (l.drop call.chunkSize.toNat)) ∧
      sealStep sha blake3 c call rng source collect st = (do
        let totalLen ← okOr (st.totalLen.checkedAdd
          (UInt64.ofNat (l.take call.chunkSize.toNat).length)) .tooLarge
        let index ← okOr (st.index.checkedAdd 1) .tooLarge
        .ok (⟨⟨s', st.sink ++ chunk.frame, (rng.fillBytes st.rng nonceLen).2⟩,
          st.leaves ++ [chunk.leaf], totalLen, index⟩,
          (l.take call.chunkSize.toNat).length < call.chunkSize.toNat)) := by
  obtain ⟨s', hfill, hleft⟩ :=
    fill_of_delivers call.chunkSize.toNat [] h
  simp only [List.length_nil, Nat.sub_zero, List.nil_append, Nat.zero_add] at hfill hleft
  have hfits : (l.take call.chunkSize.toNat).length ≤ call.chunkSize.toNat := List.length_take_le _ _
  obtain ⟨nonce, framed, leaf, hchunk⟩ := exists_sealChunkHedged sha blake3 hc halg call.key
    call.fileId st.index (rng.fillBytes st.rng nonceLen).1 (lt_of_le_of_lt hfits call.chunkSize.toNat_lt)
  have hgoes : ¬(l.take call.chunkSize.toNat = [] ∧ 0 < st.index) := by
    rintro ⟨hempty, hindex⟩
    rcases hmore with hne | hzero
    · rcases List.take_eq_nil_iff.mp hempty with hnil | hnil
      · omega
      · exact hne hnil
    · rw [hzero] at hindex
      exact lt_irrefl _ hindex
  refine ⟨s', ⟨nonce, framed, leaf⟩, hchunk, hleft, ?_⟩
  simp only [sealStep, hfill, Except.ok_bind, Except.refuseIf_of_not (not_lt.mpr hfits),
    if_neg hgoes, hchunk, Except.ok_mapError, collect, Chunk.frame, List.append_assoc]

/-- A round behind full chunks, with no bytes left: the loop ends. -/
theorem sealStep_of_delivers_nil {st : Progress σ (List UInt8) γ} {sink : Sink ε (List UInt8)}
    (h : Delivers source st.source []) (hindex : 0 < st.index) :
    ∃ s', sealStep sha blake3 c call rng source sink st = .ok ({ st with source := s' }, true) := by
  obtain ⟨s', hfill, -⟩ :=
    fill_of_delivers call.chunkSize.toNat [] h
  simp only [List.length_nil, Nat.sub_zero, List.nil_append, List.take_nil] at hfill
  refine ⟨s', ?_⟩
  simp only [sealStep, hfill, Except.ok_bind, List.length_nil,
    Except.refuseIf_of_not (Nat.not_lt_zero _), true_and, if_pos hindex]

variable {sha blake3 rng} in
/-- The loop of sealing, unrolled once. -/
theorem sealLoop_eq {τ : Type} {sink : Sink ε τ} (st : Progress σ τ γ) :
    sealLoop sha blake3 c call rng source sink st = (do
      let (st', last) ← sealStep sha blake3 c call rng source sink st
      if last then .ok st' else sealLoop sha blake3 c call rng source sink st') := by
  rw [sealLoop]
  split
  · next e he => rw [he]; rfl
  · next st' he => rw [he]; rfl
  · next st' he => rw [he]; rfl

/-- A round of the loop that counts without overflow. -/
theorem sealStep_counts (hc : c.Lawful) (halg : call.alg.ensureSupported = .ok ())
    {st : Progress σ (List UInt8) γ} (h : Delivers source st.source l)
    (hmore : l ≠ [] ∨ st.index = 0) (hsize : 0 < call.chunkSize.toNat)
    (hindex : st.index.toNat + 1 < 2 ^ 32)
    (htotal : st.totalLen.toNat + (l.take call.chunkSize.toNat).length < 2 ^ 64) :
    ∃ (chunk : Chunk) (st' : Progress σ (List UInt8) γ),
      sealChunkHedged sha blake3 c call.key call.alg call.fileId st.index
        (rng.fillBytes st.rng nonceLen).1 (l.take call.chunkSize.toNat) =
          .ok (chunk.nonce, chunk.framed, chunk.leaf) ∧
      sealStep sha blake3 c call rng source collect st =
        .ok (st', (l.take call.chunkSize.toNat).length < call.chunkSize.toNat) ∧
      (call.chunkSize.toNat ≤ l.length →
        Delivers source st'.source (l.drop call.chunkSize.toNat)) ∧
      st'.sink = st.sink ++ chunk.frame ∧ st'.rng = (rng.fillBytes st.rng nonceLen).2 ∧
      st'.leaves = st.leaves ++ [chunk.leaf] ∧
      st'.totalLen.toNat = st.totalLen.toNat + (l.take call.chunkSize.toNat).length ∧
      st'.index.toNat = st.index.toNat + 1 := by
  obtain ⟨s', chunk, hchunk, hleft, hstep⟩ :=
    sealStep_of_delivers sha blake3 rng hc halg h hmore hsize
  have hpiece : (UInt64.ofNat (l.take call.chunkSize.toNat).length).toNat =
      (l.take call.chunkSize.toNat).length := 
        UInt64.toNat_ofNat_of_lt' (lt_of_le_of_lt (Nat.le_add_left _ _) htotal)
  obtain ⟨total, htotalNat⟩ := UInt64.exists_toNat htotal
  have htotalSome : st.totalLen.checkedAdd
      (UInt64.ofNat (l.take call.chunkSize.toNat).length) = some total := by
    rw [UInt64.checkedAdd, UInt64.tryFrom_eq_some_iff, hpiece, htotalNat]
  have hindexSome : st.index.checkedAdd 1 = some (UInt32.ofNat (st.index.toNat + 1)) := by
    rw [UInt32.checkedAdd, UInt32.tryFrom_eq_some_iff, UInt32.toNat_ofNat_of_lt' hindex]
    rfl
  refine ⟨chunk, ⟨⟨s', st.sink ++ chunk.frame, (rng.fillBytes st.rng nonceLen).2⟩,
    st.leaves ++ [chunk.leaf], total, UInt32.ofNat (st.index.toNat + 1)⟩, hchunk, ?_, hleft, rfl, rfl,
    rfl, htotalNat, UInt32.toNat_ofNat_of_lt' hindex⟩
  rw [hstep, htotalSome, hindexSome]
  rfl

/-- **The loop seals the pieces of what is left**, from its position on. The induction is on what is
left; behind a last piece that is full, one more round finds the end. -/
theorem sealLoop_of_delivers (hc : c.Lawful) (halg : call.alg.ensureSupported = .ok ())
    (hsize : 0 < call.chunkSize.toNat) (st : Progress σ (List UInt8) γ)
    (h : Delivers source st.source l) (hmore : l ≠ [] ∨ st.index = 0)
    (hcount : st.index.toNat + pieceCount l.length call.chunkSize.toNat < 2 ^ 32)
    (htotal : st.totalLen.toNat + l.length < 2 ^ 64) :
    ∃ (chunks : List Chunk) (st' : Progress σ (List UInt8) γ),
      sealPieces sha blake3 c call rng st.index.toNat st.rng (pieces call.chunkSize.toNat l) =
        .ok (chunks, st'.rng) ∧
      sealLoop sha blake3 c call rng source collect st = .ok st' ∧
      st'.sink = st.sink ++ (chunks.map Chunk.frame).flatten ∧
      st'.leaves = st.leaves ++ chunks.map Chunk.leaf ∧
      st'.totalLen.toNat = st.totalLen.toNat + l.length ∧
      st'.index.toNat = st.index.toNat + pieceCount l.length call.chunkSize.toNat := by
  induction hn : l.length using Nat.strong_induction_on generalizing l st with
  | h n ih =>
    subst hn
    have hpos := pieceCount_pos l.length call.chunkSize.toNat
    have htake : (l.take call.chunkSize.toNat).length = min call.chunkSize.toNat l.length :=
      List.length_take
    obtain ⟨chunk, st₁, hchunk, hstep, hleft, hsink, hrng, hleaves, htotal₁, hindex₁⟩ :=
      sealStep_counts sha blake3 rng hc halg h hmore hsize (by omega) (by omega)
    have hat : UInt32.ofNat st.index.toNat = st.index := UInt32.ofNat_toNat
    rcases Nat.lt_or_ge call.chunkSize.toNat l.length with hlong | hshort
    · -- a full piece, with bytes behind it
      have hdrop : (l.drop call.chunkSize.toNat).length = l.length - call.chunkSize.toNat :=
        List.length_drop
      have hne : l.drop call.chunkSize.toNat ≠ [] := by
        rw [← List.length_pos_iff, hdrop]
        omega
      have hpieces := pieceCount_of_lt hsize hlong
      obtain ⟨chunks, st₂, hsealed, hloop, hsink₂, hleaves₂, htotal₂, hindex₂⟩ :=
        ih (l.length - call.chunkSize.toNat) (by omega) st₁ (hleft hlong.le) (.inl hne)
          (by rw [hdrop]; omega) (by rw [hdrop]; omega) hdrop
      refine ⟨chunk :: chunks, st₂, ?_, ?_, ?_, ?_, ?_, ?_⟩
      · rw [hindex₁, hrng] at hsealed
        simp only [pieces_of_lt hsize hlong, sealPieces, hat, hchunk, Except.ok_bind, hsealed]
      · rw [sealLoop_eq, hstep, Except.ok_bind]
        simp only [htake, Nat.min_eq_left hlong.le, lt_self_iff_false, decide_false,
          Bool.false_eq_true, if_false, hloop]
      · rw [hsink₂, hsink, List.map_cons, List.flatten_cons, List.append_assoc]
      · rw [hleaves₂, hleaves, List.map_cons, List.append_assoc, List.singleton_append]
      · omega
      · omega
    · -- the last piece
      have hpiece : l.take call.chunkSize.toNat = l := List.take_of_length_le hshort
      have hone := pieceCount_of_le hsize hshort
      rw [hpiece] at hchunk hstep htotal₁
      have hsealed : sealPieces sha blake3 c call rng st.index.toNat st.rng
          (pieces call.chunkSize.toNat l) = .ok ([chunk], st₁.rng) := by
        simp only [pieces_of_le hshort, sealPieces, hat, hchunk, Except.ok_bind, hrng]
      obtain ⟨s', hloop⟩ : ∃ s', sealLoop sha blake3 c call rng source collect st =
          .ok { st₁ with source := s' } := by
        rcases Nat.lt_or_ge l.length call.chunkSize.toNat with hlast | hfull
        · refine ⟨st₁.source, ?_⟩
          rw [sealLoop_eq, hstep, Except.ok_bind]
          simp only [hlast, decide_true, if_true]
        · have hend : Delivers source st₁.source [] := by
            have hdrop := hleft hfull
            rwa [List.drop_of_length_le hshort] at hdrop
          have hcounted : 0 < st₁.index := by
            rw [UInt32.lt_iff_toNat_lt, hindex₁]
            exact Nat.succ_pos _
          obtain ⟨s', hlast⟩ := sealStep_of_delivers_nil sha blake3 rng hend hcounted
          refine ⟨s', ?_⟩
          rw [sealLoop_eq, hstep, Except.ok_bind]
          simp only [not_lt.mpr hfull, decide_false, Bool.false_eq_true, if_false]
          rw [sealLoop_eq, hlast]
          rfl
      refine ⟨[chunk], { st₁ with source := s' }, hsealed, hloop, ?_, ?_, htotal₁, ?_⟩
      · rw [List.map_singleton, List.flatten_singleton]
        exact hsink
      · rw [List.map_singleton]
        exact hleaves
      · rw [hone]
        exact hindex₁

/-- A round whose count overflows refuses the file. -/
theorem sealStep_tooLarge (hc : c.Lawful) (halg : call.alg.ensureSupported = .ok ())
    {st : Progress σ (List UInt8) γ} (h : Delivers source st.source l)
    (hmore : l ≠ [] ∨ st.index = 0) (hsize : 0 < call.chunkSize.toNat)
    (hover : 2 ^ 32 ≤ st.index.toNat + 1 ∨
      2 ^ 64 ≤ st.totalLen.toNat + (l.take call.chunkSize.toNat).length) :
    sealStep sha blake3 c call rng source collect st = .error .tooLarge := by
  obtain ⟨s', chunk, -, -, hstep⟩ :=
    sealStep_of_delivers sha blake3 rng hc halg h hmore hsize
  have hpiece : (UInt64.ofNat (l.take call.chunkSize.toNat).length).toNat =
      (l.take call.chunkSize.toNat).length := by
    refine UInt64.toNat_ofNat_of_lt' (lt_of_le_of_lt (List.length_take_le _ _) ?_)
    exact lt_trans call.chunkSize.toNat_lt (by decide)
  have hover' : st.totalLen.checkedAdd (UInt64.ofNat (l.take call.chunkSize.toNat).length) = none ∨
      st.index.checkedAdd 1 = none := by
    rw [UInt64.checkedAdd, UInt64.tryFrom_eq_none_iff, hpiece, UInt32.checkedAdd,
      UInt32.tryFrom_eq_none_iff]
    exact hover.symm
  rw [hstep]
  rcases hover' with hnone | hnone
  · rw [hnone]
    rfl
  · rw [hnone]
    rcases st.totalLen.checkedAdd (UInt64.ofNat (l.take call.chunkSize.toNat).length) with - | total <;>
      rfl

/-- **A file of more chunks than can be counted is refused.** -/
theorem sealLoop_tooLarge (hc : c.Lawful) (halg : call.alg.ensureSupported = .ok ())
    (hsize : 0 < call.chunkSize.toNat) (st : Progress σ (List UInt8) γ)
    (h : Delivers source st.source l) (hmore : l ≠ [] ∨ st.index = 0)
    (hcount : 2 ^ 32 ≤ st.index.toNat + pieceCount l.length call.chunkSize.toNat) :
    sealLoop sha blake3 c call rng source collect st = .error .tooLarge := by
  induction hn : l.length using Nat.strong_induction_on generalizing l st with
  | h n ih =>
    subst hn
    by_cases hover : 2 ^ 32 ≤ st.index.toNat + 1 ∨
        2 ^ 64 ≤ st.totalLen.toNat + (l.take call.chunkSize.toNat).length
    · rw [sealLoop_eq, sealStep_tooLarge sha blake3 rng hc halg h hmore hsize hover]
      rfl
    · rw [not_or, not_le, not_le] at hover
      obtain ⟨chunk, st₁, -, hstep, hleft, -, -, -, -, hindex₁⟩ :=
        sealStep_counts sha blake3 rng hc halg h hmore hsize hover.1 hover.2
      -- one chunk more can be counted, so that this piece is not the last one
      have hlong : call.chunkSize.toNat < l.length := by
        by_contra hshort
        rw [pieceCount_of_le hsize (not_lt.mp hshort)] at hcount
        omega
      have hdrop : (l.drop call.chunkSize.toNat).length = l.length - call.chunkSize.toNat :=
        List.length_drop
      have hne : l.drop call.chunkSize.toNat ≠ [] := by
        rw [← List.length_pos_iff, hdrop]
        omega
      have htake : (l.take call.chunkSize.toNat).length = call.chunkSize.toNat :=
        List.length_take_of_le hlong.le
      have hpieces := pieceCount_of_lt hsize hlong
      rw [sealLoop_eq, hstep, Except.ok_bind]
      simp only [htake, lt_self_iff_false, decide_false, Bool.false_eq_true, if_false]
      exact ih (l.length - call.chunkSize.toNat) (by omega) st₁ (hleft hlong.le) (.inl hne)
        (by rw [hdrop]; omega) hdrop

/-! ### The whole stream -/

/-- **What a run does**, for every source that delivers the bytes: it seals their pieces, or refuses
a file of more chunks than can be counted. -/
theorem sealChunks_of_delivers (hc : c.Lawful) (halg : call.alg.ensureSupported = .ok ())
    (hsize : 0 < call.chunkSize.toNat) {s : σ} {g : γ} (h : Delivers source s l)
    (hcount : pieceCount l.length call.chunkSize.toNat < 2 ^ 32) :
    ∃ (chunks : List Chunk) (sealed : Sealed) (s' : σ) (g' : γ) (tree : MerkleTree),
      sealPieces sha blake3 c call rng 0 g (pieces call.chunkSize.toNat l) = .ok (chunks, g') ∧
      sealChunks sha blake3 c call rng source collect ⟨s, [], g⟩ =
        .ok (sealed, ⟨s', (chunks.map Chunk.frame).flatten, g'⟩) ∧
      MerkleTree.build blake3 (chunks.map Chunk.leaf) = .ok tree ∧
      sealed.treeRoot = tree.root blake3 ∧ sealed.totalLen.toNat = l.length ∧
      sealed.chunkCount.toNat = pieceCount l.length call.chunkSize.toNat := by
  have htotal : l.length < 2 ^ 64 := calc
    l.length ≤ pieceCount l.length call.chunkSize.toNat * call.chunkSize.toNat :=
      (pieceCount_bounds l.length hsize).2
    _ < 2 ^ 32 * 2 ^ 32 := Nat.mul_lt_mul'' hcount call.chunkSize.toNat_lt
    _ = 2 ^ 64 := by norm_num
  obtain ⟨chunks, st, hsealed, hloop, hsink, hleaves, htotalLen, hindex⟩ :=
    sealLoop_of_delivers sha blake3 rng hc halg hsize ⟨⟨s, [], g⟩, [], 0, 0⟩ h (.inr rfl)
      (by simpa using hcount) (by simpa using htotal)
  have hlength : chunks.length = pieceCount l.length call.chunkSize.toNat := by
    rw [(getElem?_of_sealPieces hsealed).1, length_pieces hsize]
  have hpos := pieceCount_pos l.length call.chunkSize.toNat
  have hne : chunks.map Chunk.leaf ≠ [] := by
    rw [← List.length_pos_iff, List.length_map]
    omega
  have hfew : (chunks.map Chunk.leaf).length < 2 ^ 32 := by
    rw [List.length_map, hlength]
    exact hcount
  obtain ⟨tree, htree⟩ : ∃ tree, MerkleTree.build blake3 (chunks.map Chunk.leaf) = .ok tree :=
    ⟨_, MerkleTree.build_eq_ok hne hfew⟩
  simp only [List.nil_append] at hsink hleaves
  refine ⟨chunks, ⟨st.totalLen, st.index, tree.root blake3⟩, st.source, st.rng, tree, hsealed, ?_,
    htree, rfl, ?_, ?_⟩
  · simp only [sealChunks, Except.refuseIf_of_not hsize.ne', Except.ok_bind, hloop, hleaves, htree,
      Except.ok_mapError, ← hsink]
  · simpa using htotalLen
  · simpa using hindex

/-- Content with too many chunks is refused. -/
theorem sealChunks_tooLarge (hc : c.Lawful) (halg : call.alg.ensureSupported = .ok ())
    (hsize : 0 < call.chunkSize.toNat) {s : σ} {g : γ} (h : Delivers source s l)
    (hcount : 2 ^ 32 ≤ pieceCount l.length call.chunkSize.toNat) :
    sealChunks sha blake3 c call rng source collect ⟨s, [], g⟩ = .error .tooLarge := by
  have hloop := sealLoop_tooLarge sha blake3 rng hc halg hsize ⟨⟨s, [], g⟩, [], 0, 0⟩ h
    (.inr rfl) (by simpa using hcount)
  simp only [sealChunks, Except.refuseIf_of_not hsize.ne', Except.ok_bind, hloop, Except.error_bind]

end Loop

end OpenCrate.Crypto
