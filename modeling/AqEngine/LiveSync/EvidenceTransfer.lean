import AqEngine.LiveSync.Evidence

namespace AqEngine.LiveSync

open Lib Fallible List Table

theorem hexDigit_lt {n : UInt8} (h : n.toNat < 16) : isLowerHex (hexDigit n) = true := by
  have ha : ∀ k : Fin 16, isLowerHex (hexDigit (UInt8.ofNat k)) = true := by decide
  have hn : UInt8.ofNat n.toNat = n := UInt8.ofNat_toNat
  rw [← hn]
  exact ha ⟨n.toNat, h⟩

theorem utf8Size_of_isLowerHex {c : Char} (h : isLowerHex c = true) : c.utf8Size = 1 := by
  have hv : c.val ≤ 0x7f := by
    simp only [isLowerHex, Char.isDigit, Bool.or_eq_true, Bool.and_eq_true, decide_eq_true_eq] at h
    obtain ⟨-, h⟩ | ⟨-, h⟩ := h
    all_goals exact UInt32.le_trans h (by decide)
  simp [Char.utf8Size, hv]

theorem byteSize_of_isLowerHex {s : List Char} (h : s.all isLowerHex = true) :
    Utf8.byteSize s = s.length := by
  induction s with
  | nil => rfl
  | cons c s ih =>
    rw [all_cons, Bool.and_eq_true] at h
    rw [Utf8.byteSize_cons, utf8Size_of_isLowerHex h.1, ih h.2, length_cons, Nat.add_comm]

theorem toList_hexText (bytes : List UInt8) : (hexText bytes).toList.all isLowerHex = true ∧
    (hexText bytes).toList.length = 2 * bytes.length := by
  rw [hexText, String.toList_ofList]
  induction bytes with
  | nil => exact ⟨rfl, rfl⟩
  | cons byte bytes ih =>
    have hh : isLowerHex (hexDigit (byte >>> 4)) = true := by
      apply hexDigit_lt
      have hb := byte.toNat_lt
      change byte.toNat >>> 4 < 16
      omega
    have hlo : isLowerHex (hexDigit (byte &&& 15)) = true := by
      apply hexDigit_lt
      exact Nat.lt_succ_of_le Nat.and_le_right
    obtain ⟨ha, hl⟩ := ih
    constructor
    · simp [hh, hlo, ha]
    · rw [flatMap_cons, length_append]
      simp only [length_cons, length_nil]
      omega

namespace EvidenceCodec

variable {codec : EvidenceCodec} {page : ExecutionEvidenceFeedPage} {json : String}

theorem checksum_digits (codec : EvidenceCodec) (text : String) :
    (codec.checksum text).toList.all isLowerHex = true ∧
      (codec.checksum text).utf8ByteSize = 64 := by
  obtain ⟨ha, hl⟩ := toList_hexText (List.ofFn (codec.digest text))
  refine ⟨ha, ?_⟩
  rw [← Utf8.byteSize_toList, checksum, byteSize_of_isLowerHex ha, hl, length_ofFn]

theorem encodedPage_eq_ok (h : codec.encodedPage page = .ok json) :
    ¬ page.outOfScope ∧ codec.toJson page = some json ∧
      json.utf8ByteSize ≤ executionEvidenceTransferBytes := by
  obtain ⟨hs, h⟩ := refuseIf_bind_eq_ok.1 h
  obtain ⟨previous, -, h⟩ := bind_eq_ok.1 h
  obtain ⟨-, h⟩ := refuseIf_bind_eq_ok.1 h
  cases hj : codec.toJson page with
  | none =>
    rw [hj] at h
    cases h
  | some =>
    rw [hj] at h
    obtain ⟨hb, h⟩ := refuseIf_bind_eq_ok.1 h
    cases h
    exact ⟨hs, rfl, not_lt.1 hb⟩

structure Bodies (json : String) (bodies : List String) : Prop where
  joined : String.join bodies = json
  nonempty : ∀ body ∈ bodies, body ≠ ""
  bounded : ∀ body ∈ bodies, body.utf8ByteSize ≤ executionEvidenceChunkBytes
  some : bodies ≠ []
  few : bodies.length ≤ executionEvidenceMaxChunks

theorem join_map_ofList (bodies : List (List Char)) :
    String.join (bodies.map String.ofList) = String.ofList bodies.flatten := by
  apply String.toList_injective
  rw [String.toList_join, flatMap_map]
  simp only [String.toList_ofList]
  exact flatMap_id

/-- Back-off by three bytes at most keeps the largest page within 37 chunks,
since 37 · 32765 exceeds its bytes. -/
theorem executionEvidenceChunks_eq (h : codec.encodedPage page = .ok json) :
    ∃ bodies, Bodies json bodies ∧ codec.executionEvidenceChunks page =
      some (.ok (bodies.mapIdx (codec.chunk page json bodies.length))) := by
  obtain ⟨-, hjs, hby⟩ := encodedPage_eq_ok h
  have hs : 4 ≤ executionEvidenceChunkBytes := by decide
  obtain ⟨bodies, hc, hp⟩ := Utf8.cut_eq_some hs [] json.toList json.utf8ByteSize
    (Utf8.byteSize_toList json).le
  rw [nil_append, Utf8.byteSize_nil] at hc
  have hco := hp.count
  rw [Utf8.byteSize_toList] at hco
  have hf : bodies.length ≤ executionEvidenceMaxChunks := by
    simp only [executionEvidenceChunkBytes, executionEvidenceTransferBytes,
      executionEvidenceMaxChunks] at *
    omega
  have hj : String.join (bodies.map String.ofList) = json := by
    rw [join_map_ofList, hp.joined, String.ofList_toList]
  refine ⟨bodies.map String.ofList, ⟨hj, ?_, ?_, ?_, ?_⟩, ?_⟩
  · intro body hb he
    obtain ⟨piece, hpi, rfl⟩ := mem_map.1 hb
    exact hp.nonempty piece hpi (String.ofList_eq_empty_iff.1 he)
  · intro body hb
    obtain ⟨piece, hpi, rfl⟩ := mem_map.1 hb
    rw [Utf8.utf8ByteSize_ofList]
    exact hp.bounded piece hpi
  · intro hn
    rw [hn] at hj
    exact codec.toJson_ne page json hjs hj.symm
  · rw [length_map]
    exact hf
  · have hm : bodies.mapIdx (fun index body =>
        codec.chunk page json bodies.length index (String.ofList body)) =
        (bodies.map String.ofList).mapIdx (codec.chunk page json bodies.length) := by
      apply ext_getElem <;> simp
    simp only [executionEvidenceChunks, h, hc, Option.map_some, not_lt.2 hf, if_false,
      length_map, hm]

theorem validate_chunk {bodies : List String} (h : codec.encodedPage page = .ok json)
    (hb : Bodies json bodies) {index : Nat} {body : String} (hbo : bodies[index]? = some body) :
    (codec.chunk page json bodies.length index body).validate = .ok () := by
  obtain ⟨hs, -, -⟩ := encodedPage_eq_ok h
  obtain ⟨hindex, rfl⟩ := List.getElem?_eq_some_iff.1 hbo
  obtain ⟨hd, hsi⟩ := codec.checksum_digits json
  have hm := getElem_mem hindex
  have hso : bodies.length ≠ 0 := fun hz => hb.some (length_eq_zero_iff.1 hz)
  simp only [ExecutionEvidenceFeedPage.outOfScope, not_or] at hs
  obtain ⟨hv, -, -, hsource, hsou, hst, hstr, ha, hac, haf, hn, ht, -, -⟩ := hs
  have hma : ¬ i64Max < page.nextSequence := fun hlt =>
    ht (UInt64.lt_of_lt_of_le hlt (UInt64.not_lt.1 hn))
  refine refuseIf_eq_ok.2 ?_
  simp only [ExecutionEvidenceChunk.malformed, chunk, envelope, not_or]
  exact ⟨hv, hsource, hsou, hst, hstr, ha, hac, haf,
    hma, hso, not_lt.2 hb.few, not_le.2 hindex, hb.nonempty _ hm,
    not_lt.2 (hb.bounded _ hm), not_not.2 hsi, by rw [hd]; nofun⟩

end EvidenceCodec

namespace ReceivedParts

variable {first : ChunkEnvelope} {received received' : ReceivedParts}
  {chunk : ExecutionEvidenceChunk} {chunks : List ExecutionEvidenceChunk}

theorem add_eq_ok (h : received.add first chunk = .ok received') :
    chunk.validate = .ok () ∧ chunk.toChunkEnvelope = first ∧
      (∀ body, received.parts.lookup chunk.index = some body → body = chunk.body) ∧
      received'.parts = received.parts.insert chunk.index chunk.body := by
  obtain ⟨⟨⟩, hvalid, h⟩ := bind_eq_ok.1 h
  obtain ⟨hf, h⟩ := refuseIf_bind_eq_ok.1 h
  obtain ⟨bytes, hb, h⟩ := bind_eq_ok.1 h
  obtain ⟨-, h⟩ := refuseIf_bind_eq_ok.1 h
  cases h
  refine ⟨hvalid, not_not.1 hf, fun body hbo => ?_, rfl⟩
  simp only [count, hbo] at hb
  exact not_not.1 (ite_error_eq_ok.1 hb).1

theorem foldlM_add_eq_ok (h : chunks.foldlM (add first) received = .ok received') :
    (∀ chunk ∈ chunks, chunk.validate = .ok () ∧ chunk.toChunkEnvelope = first ∧
      received'.parts.lookup chunk.index = some chunk.body) ∧
    (∀ i body, received.parts.lookup i = some body → received'.parts.lookup i = some body) ∧
    (∀ i body, received'.parts.lookup i = some body → received.parts.lookup i = some body ∨
      ∃ chunk ∈ chunks, chunk.index = i ∧ chunk.body = body) := by
  induction chunks generalizing received with
  | nil =>
    cases h
    exact ⟨by simp, fun _ _ h => h, fun _ _ h => .inl h⟩
  | cons chunk chunks ih =>
    obtain ⟨next, ha, h⟩ := bind_eq_ok.1 h
    obtain ⟨hvalid, hfi, hs, hp⟩ := add_eq_ok ha
    obtain ⟨hc, hk, hf⟩ := ih h
    have hn : next.parts.lookup chunk.index = some chunk.body := by
      rw [hp]
      exact AList.lookup_insert _
    refine ⟨forall_mem_cons.2 ⟨⟨hvalid, hfi, hk _ _ hn⟩, hc⟩, ?_, ?_⟩
    · intro i body hb
      refine hk i body ?_
      by_cases hi : i = chunk.index
      · subst hi
        rw [hn, hs body hb]
      rw [hp, AList.lookup_insert_ne hi]
      exact hb
    · intro i body hb
      obtain hb | ⟨other, ho, heq⟩ := hf i body hb
      · rw [hp] at hb
        obtain ⟨rfl, rfl⟩ | ⟨-, hb⟩ := lookup_insert_cases hb
        · exact .inr ⟨chunk, mem_cons_self, rfl, rfl⟩
        · exact .inl hb
      · exact .inr ⟨other, mem_cons_of_mem _ ho, heq⟩

/-- The parts are some of the given bodies, and their bytes are counted once. -/
structure PartOf (bodies : List String) (received : ReceivedParts) : Prop where
  parts : ∀ i body, received.parts.lookup i = some body → bodies[i]? = some body
  bytes : received.bytes = received.parts.weight String.utf8ByteSize

theorem add_ok {bodies : List String} (h : PartOf bodies received)
    (hvalid : chunk.validate = .ok ()) (hf : chunk.toChunkEnvelope = first)
    (hc : bodies[chunk.index]? = some chunk.body)
    (ht : (bodies.map String.utf8ByteSize).sum ≤ executionEvidenceTransferBytes) :
    ∃ next, received.add first chunk = .ok next ∧ PartOf bodies next := by
  -- the bytes of the parts are those of distinct bodies
  have hli {next : ReceivedParts} (hn : PartOf bodies next) :
      ¬ executionEvidenceTransferBytes < next.bytes := by
    have hle := weight_le String.utf8ByteSize (t := next.parts) (u := Table.ofList bodies)
      fun i body hb => by
        rw [lookup_ofList]
        exact hn.parts i body hb
    rw [weight_ofList] at hle
    rw [hn.bytes]
    omega
  have hp : ∀ i body, (received.parts.insert chunk.index chunk.body).lookup i = some body →
      bodies[i]? = some body := by
    intro i body hb
    obtain ⟨rfl, rfl⟩ | ⟨-, hb⟩ := lookup_insert_cases hb
    · exact hc
    · exact h.parts i body hb
  cases hl : received.parts.lookup chunk.index with
  | none =>
    have hn : PartOf bodies ⟨received.parts.insert chunk.index chunk.body,
        received.bytes + chunk.body.utf8ByteSize⟩ := by
      refine ⟨hp, ?_⟩
      rw [weight_insert _ hl, h.bytes, Nat.add_comm]
    refine ⟨_, ?_, hn⟩
    simp only [add, count, hvalid, hl, bind_ok, refuseIf_bind_of_not (not_not.2 hf),
      refuseIf_bind_of_not (hli hn)]
  | some body =>
    have hb : body = chunk.body := by
      have := h.parts _ _ hl
      rw [hc] at this
      exact (Option.some.inj this).symm
    subst hb
    have hn : PartOf bodies ⟨received.parts.insert chunk.index chunk.body, received.bytes⟩ := by
      refine ⟨hp, ?_⟩
      rw [h.bytes]
      apply weight_congr
      intro i
      by_cases hi : i = chunk.index
      · subst hi
        rw [hl, AList.lookup_insert]
      · rw [AList.lookup_insert_ne hi]
    refine ⟨_, ?_, hn⟩
    simp only [add, count, hvalid, hl, bind_ok, refuseIf_bind_of_not (not_not.2 hf),
      refuseIf_bind_of_not (hli hn), ne_eq, not_true_eq_false, if_false]

theorem foldlM_add_ok {bodies : List String} (h : PartOf bodies received)
    (hch : ∀ chunk ∈ chunks, chunk.validate = .ok () ∧ chunk.toChunkEnvelope = first ∧
      bodies[chunk.index]? = some chunk.body)
    (ht : (bodies.map String.utf8ByteSize).sum ≤ executionEvidenceTransferBytes) :
    ∃ received', chunks.foldlM (add first) received = .ok received' ∧ PartOf bodies received' := by
  induction chunks generalizing received with
  | nil => exact ⟨received, rfl, h⟩
  | cons chunk chunks ih =>
    obtain ⟨⟨hvalid, hfi, hc⟩, hrest⟩ := forall_mem_cons.1 hch
    obtain ⟨next, ha, hn⟩ := add_ok h hvalid hfi hc ht
    obtain ⟨received', hf, hr'⟩ := ih hn hrest
    refine ⟨received', ?_, hr'⟩
    rw [foldlM_cons, ha]
    exact hf

end ReceivedParts

/-- The ways in which received chunks fail to be one whole transfer: an
index is missing, two transfers are mixed, or two bodies claim one index. -/
inductive Broken (received : List ExecutionEvidenceChunk) : Prop where
  | missing {chunk} {i : Nat} (mem : chunk ∈ received) (lt : i < chunk.count)
      (missing : ∀ other ∈ received, other.index ≠ i)
  | mixed {chunk other} (mem : chunk ∈ received) (mem' : other ∈ received)
      (ne : chunk.toChunkEnvelope ≠ other.toChunkEnvelope)
  | conflicting {chunk other} (mem : chunk ∈ received) (mem' : other ∈ received)
      (index : chunk.index = other.index) (ne : chunk.body ≠ other.body)

namespace EvidenceCodec

variable {codec : EvidenceCodec} {page : ExecutionEvidenceFeedPage} {json : String}
  {received : List ExecutionEvidenceChunk}

theorem sum_utf8ByteSize (bodies : List String) :
    (bodies.map String.utf8ByteSize).sum = (String.join bodies).utf8ByteSize := by
  rw [← Utf8.byteSize_toList, String.toList_join]
  induction bodies with
  | nil => rfl
  | cons _ bodies ih =>
    rw [map_cons, sum_cons, ih, flatMap_cons, Utf8.byteSize_append,
      Utf8.byteSize_toList]

theorem not_broken_of_ok (h : codec.assembleExecutionEvidence received = .ok page) :
    ¬ Broken received := by
  cases received with
  | nil => cases h
  | cons chunk =>
    obtain ⟨-, h⟩ := refuseIf_bind_eq_ok.1 h
    obtain ⟨parts, hfo, h⟩ := bind_eq_ok.1 h
    obtain ⟨hco, -⟩ := refuseIf_bind_eq_ok.1 h
    obtain ⟨hc, -, hf⟩ := ReceivedParts.foldlM_add_eq_ok hfo
    rintro (⟨hm, hlt, hmi⟩ | ⟨hm, hm', hne⟩ | ⟨hm, hm', hindex, hne⟩)
    · have hbo : ∀ i body, parts.parts.lookup i = some body → i < chunk.count := by
        intro i body hb
        obtain hn | ⟨other, ho, rfl, -⟩ := hf i body hb
        · cases hn
        obtain ⟨hvalid, hs, -⟩ := hc other ho
        have hw := refuseIf_eq_ok.1 hvalid
        simp only [ExecutionEvidenceChunk.malformed, not_or, not_le] at hw
        rw [← hs]
        exact hw.2.2.2.2.2.2.2.2.2.2.2.1
      rw [(hc _ hm).2.1] at hlt
      obtain ⟨body, hb⟩ := exists_lookup_of_length hbo (not_not.1 hco) hlt
      obtain hn | ⟨other, ho, hindex, -⟩ := hf _ body hb
      · cases hn
      · exact hmi other ho hindex
    · exact hne ((hc _ hm).2.1.trans (hc _ hm').2.1.symm)
    · have hb := (hc _ hm).2.2
      rw [hindex, (hc _ hm').2.2] at hb
      exact hne (Option.some.inj hb).symm

/-- The order and the repetition of the chunks of a page do not matter. -/
theorem assemble_chunks {bodies : List String} (h : codec.encodedPage page = .ok json)
    (hbo : Bodies json bodies)
    (hr : ∀ chunk, chunk ∈ received ↔ chunk ∈ bodies.mapIdx (codec.chunk page json bodies.length))
    (hle : received.length ≤ executionEvidenceMaxChunks * 2) :
    codec.assembleExecutionEvidence received =
      codec.readPage (codec.envelope page json bodies.length) json := by
  have hm : ∀ i body, bodies[i]? = some body →
      codec.chunk page json bodies.length i body ∈ received := by
    intro i body hb
    obtain ⟨hi, rfl⟩ := List.getElem?_eq_some_iff.1 hb
    exact (hr _).2 (mem_mapIdx.2 ⟨i, hi, rfl⟩)
  have hc : ∀ chunk ∈ received, chunk.validate = .ok () ∧
      chunk.toChunkEnvelope = codec.envelope page json bodies.length ∧
      bodies[chunk.index]? = some chunk.body := by
    intro chunk hch
    obtain ⟨i, hi, rfl⟩ := mem_mapIdx.1 ((hr chunk).1 hch)
    have hb := getElem?_eq_getElem hi
    exact ⟨validate_chunk h hbo hb, rfl, hb⟩
  have ht : (bodies.map String.utf8ByteSize).sum ≤ executionEvidenceTransferBytes := by
    rw [sum_utf8ByteSize, hbo.joined]
    exact (encodedPage_eq_ok h).2.2
  have hno : ReceivedParts.PartOf bodies {} := ⟨fun _ _ hn => (nomatch hn), rfl⟩
  obtain ⟨parts, hf, hp⟩ := ReceivedParts.foldlM_add_ok hno hc ht
  -- the parts are exactly the bodies, so their order is restored
  have hl : ∀ i, parts.parts.lookup i = (Table.ofList bodies).lookup i := by
    intro i
    rw [lookup_ofList]
    ext body
    constructor
    · exact hp.parts i body
    · intro hb
      exact ((ReceivedParts.foldlM_add_eq_ok hf).1 _ (hm i body hb)).2.2
  have hco : parts.parts.entries.length = (codec.envelope page json bodies.length).count := by
    rw [(entries_perm hl).length_eq, length_ofList, envelope]
  have hj : String.join parts.parts.inOrder = json := by
    rw [inOrder_congr hl, inOrder_ofList, hbo.joined]
  cases received with
  | nil =>
    obtain ⟨body, hb⟩ := exists_mem_of_ne_nil _ hbo.some
    obtain ⟨i, hi, rfl⟩ := mem_iff_getElem.1 hb
    exact absurd (hm i _ (getElem?_eq_getElem hi)) not_mem_nil
  | cons chunk =>
    have hfi := (hc chunk mem_cons_self).2.1
    simp only [assembleExecutionEvidence, hfi, hf, bind_ok, hj,
      refuseIf_bind_of_not (not_lt.2 hle), refuseIf_bind_of_not (not_not.2 hco)]

theorem readPage_eq_ok {first : ChunkEnvelope} (h : codec.readPage first json = .ok page) :
    codec.fromJson json = some page := by
  obtain ⟨-, h⟩ := refuseIf_bind_eq_ok.1 h
  cases hp : codec.fromJson json with
  | none =>
    rw [hp] at h
    cases h
  | some =>
    rw [hp] at h
    obtain ⟨-, -, h⟩ := bind_eq_ok.1 h
    obtain ⟨-, h⟩ := refuseIf_bind_eq_ok.1 h
    cases h
    rfl

theorem readPage_ok {first : ChunkEnvelope} (hr : codec.fromJson json = some page)
    (h : codec.encodedPage page = .ok json) (hc : codec.checksum json = first.transferId)
    (hs : page.scope = first.scope) : codec.readPage first json = .ok page := by
  simp only [readPage, hr, h, bind_ok, refuseIf_bind_of_not (not_not.2 hc),
    refuseIf_bind_of_not (not_not.2 hs)]

theorem accounting_of_validate {a : Broker.PositionCloseAccounting} (h : a.validate = .ok ()) :
    [a.netPnl, a.commission, a.swap].all F64.isFinite = true := by
  rw [Broker.PositionCloseAccounting.validate] at h
  split_ifs at h with _ _ _ hgross
  rw [Broker.grossFromNet] at hgross
  split_ifs at hgross with hfinite
  · simp only [all_cons, all_nil, Bool.and_true, Bool.and_eq_true] at hfinite ⊢
    exact ⟨hfinite.1, hfinite.2.1, hfinite.2.2.1⟩
  · exact absurd rfl hgross

theorem accounting_of_check {previous next : UInt64} {observations}
    (h : page.checkObservations previous observations = .ok next) :
    ∀ o ∈ observations, o.record.state.accountingNumbers.all F64.isFinite = true := by
  induction observations generalizing previous with
  | nil => exact forall_mem_nil _
  | cons first rest ih =>
    obtain ⟨-, h⟩ := refuseIf_bind_eq_ok.1 h
    obtain ⟨_, ha, h⟩ := bind_eq_ok.1 h
    refine forall_mem_cons.2 ⟨?_, ih h⟩
    rw [ExecutionEvidenceFeedPage.checkAccounting] at ha
    rw [ExecutionEvidenceState.accountingNumbers]
    split at ha
    · next hn => rw [hn]; rfl
    · next a hs =>
      split at ha
      · cases ha
      · next hvalid =>
        rw [hs]
        exact accounting_of_validate hvalid

/-- The numbers of an accounting are checked before a page is written. -/
theorem isWritable_iff (h : codec.encodedPage page = .ok json) :
    page.isWritable = true ↔ page.isFinite = true := by
  obtain ⟨-, h⟩ := refuseIf_bind_eq_ok.1 h
  obtain ⟨_, hc, -⟩ := bind_eq_ok.1 h
  rw [ExecutionEvidenceFeedPage.isWritable, Bool.and_eq_true]
  exact and_iff_left (all_eq_true.2 (accounting_of_check hc))

theorem readPage_envelope (count : Nat) (h : codec.encodedPage page = .ok json) :
    codec.readPage (codec.envelope page json count) json = .ok page ↔ page.isFinite = true := by
  constructor
  · intro hr
    exact (isWritable_iff h).1 (codec.fromJson_isWritable json page (readPage_eq_ok hr))
  · intro hf
    have hj := codec.fromJson_toJson page json (encodedPage_eq_ok h).2.1 ((isWritable_iff h).2 hf)
    exact readPage_ok hj h rfl rfl

/-- The transfer of a page: it is cut between characters into at most 37
valid chunks, from which the page is restored in any order and with any
repetition exactly when JSON can write all of its numbers; and chunks that
are not one whole transfer are refused. -/
theorem evidence_transfer (codec : EvidenceCodec) :
    (∀ page json, codec.encodedPage page = .ok json →
      ∃ chunks, codec.executionEvidenceChunks page = some (.ok chunks) ∧
        (∀ chunk ∈ chunks, chunk.validate = .ok ()) ∧
        String.join (chunks.map (·.body)) = json ∧
        ∀ received, (∀ chunk, chunk ∈ received ↔ chunk ∈ chunks) →
          received.length ≤ executionEvidenceMaxChunks * 2 →
          (codec.assembleExecutionEvidence received = .ok page ↔ page.isFinite = true)) ∧
    (∀ received, Broken received →
      ∃ error, codec.assembleExecutionEvidence received = .error error) ∧
    (∀ page json chunks other otherJson otherChunks received,
      codec.encodedPage page = .ok json → codec.executionEvidenceChunks page = some (.ok chunks) →
      codec.encodedPage other = .ok otherJson →
      codec.executionEvidenceChunks other = some (.ok otherChunks) →
      json ≠ otherJson → (codec.checksum json = codec.checksum otherJson → json = otherJson) →
      (∃ chunk ∈ chunks, chunk ∈ received) → (∃ chunk ∈ otherChunks, chunk ∈ received) →
      ∃ error, codec.assembleExecutionEvidence received = .error error) := by
  have hbr (received : List ExecutionEvidenceChunk) (h : Broken received) :
      ∃ error, codec.assembleExecutionEvidence received = .error error :=
    error_of_not_ok fun page hpa => not_broken_of_ok hpa h
  refine ⟨fun page json h => ?_, hbr, ?_⟩
  · obtain ⟨bodies, hbo, hch⟩ := executionEvidenceChunks_eq h
    refine ⟨_, hch, ?_, ?_, fun received hre hle => ?_⟩
    · intro chunk hchu
      obtain ⟨i, hi, rfl⟩ := mem_mapIdx.1 hchu
      exact validate_chunk h hbo (getElem?_eq_getElem hi)
    · rw [← hbo.joined]
      congr 1
      apply ext_getElem <;> simp [chunk]
    · rw [assemble_chunks h hbo hre hle]
      exact readPage_envelope bodies.length h
  · intro page json chunks other otherJson otherChunks received hpa hch hoth hot
      hne hco ⟨chunk, hchu, hmem⟩ ⟨chunk', hch', hmem'⟩
    obtain ⟨bodies, -, heq⟩ := executionEvidenceChunks_eq hpa
    obtain ⟨bodies', -, heq'⟩ := executionEvidenceChunks_eq hoth
    rw [hch] at heq
    rw [hot] at heq'
    cases heq
    cases heq'
    obtain ⟨i, hi, rfl⟩ := mem_mapIdx.1 hchu
    obtain ⟨i', hi', rfl⟩ := mem_mapIdx.1 hch'
    refine hbr received (.mixed hmem hmem' fun hsa => hne (hco ?_))
    exact congrArg ChunkEnvelope.transferId hsa

end EvidenceCodec

def evidencePage (intendedQuantity : Option F64) : ExecutionEvidenceFeedPage where
  schemaVersion := 2
  sourceId := "s"
  strategyId := "g"
  accountId := "a"
  afterSequence := 0
  throughSequence := 1
  nextSequence := 1
  hasMore := false
  observations :=
    [{ executionEpoch := 1
       record :=
        { sequence := 1, checkpointRevision := 1, observedAtUs := 1, recordedAtUs := 1
          state :=
            { insightId := "i", symbol := "X", strategyLabel := "l", state := "Filled"
              side := "Buy", intendedQuantity, orderType := "Market", orderClass := "Simple"
              createdAtUs := 1 } } }]
  generatedAtUs := 1
  coverage := "c"
  recoveryComplete := none
  valuationBasis := "v"

def evidencePageJson : String :=
  "\x7b\"schema_version\":2,\"source_id\":\"s\",\"strategy_id\":\"g\"," ++
  "\"account_id\":\"a\",\"after_sequence\":0,\"through_sequence\":1," ++
  "\"next_sequence\":1,\"has_more\":false,\"observations\":[\x7b\"execution_epoch\":1," ++
  "\"record\":\x7b\"sequence\":1,\"checkpoint_revision\":1,\"observed_at_us\":1," ++
  "\"recorded_at_us\":1,\"state\":\x7b\"insight_id\":\"i\",\"parent_id\":null," ++
  "\"is_split_insight\":false,\"symbol\":\"X\",\"strategy_label\":\"l\"," ++
  "\"state\":\"Filled\",\"side\":\"Buy\",\"entry_order_id\":null," ++
  "\"close_order_id\":null,\"intended_quantity\":null,\"entry_filled_quantity\":null," ++
  "\"partial_closed_quantity\":null,\"entry_price\":null,\"close_price\":null," ++
  "\"broker_realized_pnl\":null,\"commission\":null,\"swap\":null," ++
  "\"order_type\":\"Market\",\"order_class\":\"Simple\",\"limit_price\":null," ++
  "\"stop_price\":null,\"take_profit_levels\":null,\"stop_loss_levels\":null," ++
  "\"trailing_stop_price\":null,\"created_at_us\":1,\"filled_at_us\":null," ++
  "\"closed_at_us\":null,\"partial_closes\":[]," ++
  "\"invalid_numeric_fields\":0\x7d\x7d\x7d],\"generated_at_us\":1,\"coverage\":\"c\"," ++
  "\"recovery_complete\":null,\"valuation_basis\":\"v\"\x7d"

def evidencePageDigest : List UInt8 :=
  [146, 167, 189, 165, 86, 48, 207, 223, 48, 171, 202, 170, 114, 76, 78, 211,
    244, 201, 213, 110, 11, 38, 134, 158, 248, 184, 35, 6, 100, 5, 218, 226]

def evidencePageCodec : EvidenceCodec where
  toJson page :=
    if page = evidencePage none ∨ page = evidencePage (some .nan) then some evidencePageJson
    else none
  fromJson text := if text = evidencePageJson then some (evidencePage none) else none
  digest _ i := evidencePageDigest.getD i 0
  toJson_ne page text h := by
    split at h
    · cases h
      decide +kernel
    · cases h
  fromJson_toJson page text h hfinite := by
    split at h
    case isTrue hpage =>
      cases h
      obtain rfl | rfl := hpage
      · exact if_pos rfl
      · exact absurd hfinite (by decide)
    case isFalse => cases h
  fromJson_isWritable text page h := by
    split at h
    · cases h
      decide
    · cases h

theorem evidencePageJson_bytes :
    evidencePageJson.utf8ByteSize ≤ executionEvidenceTransferBytes := by
  decide +kernel

theorem encodedPage_evidencePage {q : Option F64} (hq : q = none ∨ q = some .nan) :
    evidencePageCodec.encodedPage (evidencePage q) = .ok evidencePageJson := by
  have hs : ¬ (evidencePage q).outOfScope := by
    obtain rfl | rfl := hq <;> decide
  have hse : (evidencePage q).checkObservations (evidencePage q).afterSequence
      (evidencePage q).observations = .ok (evidencePage q).nextSequence := rfl
  have hj : evidencePageCodec.toJson (evidencePage q) = some evidencePageJson :=
    if_pos (hq.imp (congrArg evidencePage) (congrArg evidencePage))
  simp only [EvidenceCodec.encodedPage, hse, hj, bind_ok, refuseIf_bind_of_not hs,
    refuseIf_bind_of_not (not_not.2 rfl), refuseIf_bind_of_not (not_lt.2 evidencePageJson_bytes)]

theorem finite_page_restored : ∃ chunks,
    evidencePageCodec.executionEvidenceChunks (evidencePage none) = some (.ok chunks) ∧
    evidencePageCodec.assembleExecutionEvidence chunks.reverse = .ok (evidencePage none) := by
  have hpage := encodedPage_evidencePage (.inl rfl)
  obtain ⟨bodies, hbodies, hcut⟩ := EvidenceCodec.executionEvidenceChunks_eq hpage
  obtain ⟨chunks, hchunks, -, -, hrestored⟩ :=
    (EvidenceCodec.evidence_transfer evidencePageCodec).1 _ _ hpage
  obtain rfl := Except.ok.inj (Option.some.inj (hcut.symm.trans hchunks))
  refine ⟨_, hcut, (hrestored _ (fun _ => mem_reverse) ?_).2 (by decide)⟩
  rw [length_reverse, length_mapIdx]
  exact hbodies.few.trans (by decide)

/-- A quantity that is not a number is accepted, and lost without an error. -/
theorem not_a_number_is_lost : ∃ chunks,
    evidencePageCodec.encodedPage (evidencePage (some .nan)) = .ok evidencePageJson ∧
    evidencePageCodec.executionEvidenceChunks (evidencePage (some .nan)) = some (.ok chunks) ∧
    evidencePageCodec.assembleExecutionEvidence chunks = .ok (evidencePage none) ∧
    evidencePage none ≠ evidencePage (some .nan) := by
  have hpa := encodedPage_evidencePage (.inr rfl)
  obtain ⟨bodies, hbo, hch⟩ := EvidenceCodec.executionEvidenceChunks_eq hpa
  refine ⟨_, hpa, hch, ?_, by decide⟩
  have hle : (bodies.mapIdx (evidencePageCodec.chunk (evidencePage (some .nan))
      evidencePageJson bodies.length)).length ≤ executionEvidenceMaxChunks * 2 := by
    rw [length_mapIdx]
    exact hbo.few.trans (by decide)
  rw [EvidenceCodec.assemble_chunks hpa hbo (fun _ => Iff.rfl) hle]
  have hre : evidencePageCodec.fromJson evidencePageJson = some (evidencePage none) := by
    simp only [evidencePageCodec, if_true]
  exact EvidenceCodec.readPage_ok hre (encodedPage_evidencePage (.inl rfl)) rfl rfl

end AqEngine.LiveSync
