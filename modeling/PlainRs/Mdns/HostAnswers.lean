import PlainRs.Mdns.Renames

/-! Queries as they are built, and the answers of the host responder to them. -/
namespace PlainRs.Mdns

open Checked

variable {data : Bytes} {name hostname : String} {qtype : UInt16} {unicast : Bool}
  {ips : List String}

section Queries

/-- A query asks the one question it was built for. -/
theorem readQuestions_buildQuery (hname : ∀ label ∈ splitLabels name, (Text.bytes label).length ≤ 191)
    (qtype : UInt16) (unicast : Bool) :
    readQuestions (buildQuery name qtype unicast) =
      .ok (some [⟨readBack name, qtype, dnsClassIn, unicast⟩]) := by
  generalize hdata : buildQuery name qtype unicast = data
  have hat : At data 0 (buildQuery name qtype unicast) := ⟨[], [], by simp [hdata], rfl⟩
  rw [buildQuery] at hat
  simp only [List.append_assoc] at hat
  have hle := hat.le
  simp only [List.length_append, length_writeU16] at hle
  have hflags := hat.right
  have hcount := hflags.right
  have hquestion := hcount.right.right.right.right
  simp only [length_writeU16, Nat.zero_add, Nat.reduceAdd] at hflags hcount hquestion
  have hread := readName_encodeName hname hquestion.left
  have hqtype := hquestion.right.left
  have hclass := hquestion.right.right
  simp only [length_writeU16] at hclass
  rw [readQuestions, if_neg (by omega), readU16_written hflags.left, ok_bind,
    if_neg (by decide), readU16_written hcount.left, ok_bind, if_neg (by decide),
    show (1 : UInt16).toNat = 1 from rfl, readQuestionsFrom, hread, ok_bind]
  dsimp only
  rw [if_neg (by omega), readU16_written hqtype, ok_bind, readU16_written hclass, ok_bind]
  cases unicast with
  | false => rfl
  | true => rfl

end Queries

section Answers

/-- The record of one address. -/
def addressRecord (hostname ip : String) : WireRecord :=
  ⟨hostname, typeA, dnsCacheFlushClassIn, ttlSeconds, ipToBytes ip⟩

theorem addressRecords_fit (hhost : ∀ label ∈ splitLabels hostname, (Text.bytes label).length ≤ 191)
    (hquads : ∀ ip ∈ ips, DottedQuad ip) : ∀ r ∈ ips.map (addressRecord hostname), r.Fits := by
  intro r hr
  obtain ⟨ip, hip, rfl⟩ := List.mem_map.mp hr
  obtain ⟨a, b, c, d, hquad⟩ := hquads ip hip
  have hlen : (addressRecord hostname ip).rdata.length = 4 := congrArg List.length (ipToBytes_eq hquad)
  exact ⟨hhost, by omega⟩

theorem map_addressRecords {ms : List MdnsRecord} (hquads : ∀ ip ∈ ips, DottedQuad ip)
    (h : List.Forall₂ WireRecord.ReadAs (ips.map (addressRecord hostname)) ms) :
    ms.map (fun m => (m.name, m.ttl, m.ip)) =
      ips.map fun ip => (readBack hostname, ttlSeconds, .ok (some ip)) := by
  induction ips generalizing ms with
  | nil =>
    cases h
    rfl
  | cons ip ips ih =>
    obtain ⟨hquad, hquads⟩ := List.forall_mem_cons.mp hquads
    obtain ⟨m, ms, hone, hrest, rfl⟩ := List.forall₂_cons_left_iff.mp h
    rw [List.map_cons, List.map_cons, ih hquads hrest, hone.name, hone.ttl,
      ip_read hone rfl rfl hquad]
    rfl

/-- A query for a hostname is answered just when the hostname is its own, up to the case of ASCII
letters, and addresses are asked for; the answer says whether it goes back by unicast, and is read as
one record for each address. -/
theorem host_query_answered
    (hname : ∀ label ∈ splitLabels name, (Text.bytes label).length ≤ 191)
    (hhost : ∀ label ∈ splitLabels hostname, (Text.bytes label).length ≤ 191)
    (hquads : ∀ ip ∈ ips, DottedQuad ip) (hcount : ips.length ≤ 65535) (qtype : UInt16)
    (unicast : Bool) :
    ∃ answer, buildHostResponseIfMatch (buildQuery name qtype unicast) hostname ips = .ok answer ∧
      (answer.isSome ↔ ips ≠ [] ∧ eqIgnoreAsciiCase (readBack name) hostname = true ∧
        (qtype = typeA ∨ qtype = typeAny)) ∧
      ∀ r ∈ answer, r.unicastResponseRequested = unicast ∧
        ∃ parsed, parseResponse r.bytes = .ok (some parsed) ∧ parsed.isResponse = true ∧
          parsed.additional = [] ∧
          parsed.answers.map (fun m => (m.name, m.ttl, m.ip)) =
            ips.map fun ip => (readBack hostname, ttlSeconds, .ok (some ip)) := by
  have hquestions := readQuestions_buildQuery hname qtype unicast
  unfold buildHostResponseIfMatch
  by_cases hips : ips = []
  · rw [if_pos hips]
    exact ⟨none, rfl, by simp [hips], by simp⟩
  rw [if_neg hips, hquestions, ok_bind]
  dsimp only
  have hasked : asksForHost hostname ⟨readBack name, qtype, dnsClassIn, unicast⟩ = true ↔
      eqIgnoreAsciiCase (readBack name) hostname = true ∧ (qtype = typeA ∨ qtype = typeAny) := by
    simp [asksForHost]
  by_cases hask : asksForHost hostname ⟨readBack name, qtype, dnsClassIn, unicast⟩ = true
  · rw [List.filter_cons_of_pos hask, List.filter_nil, if_neg (by simp)]
    refine ⟨_, rfl, iff_of_true rfl ⟨hips, hasked.mp hask⟩, ?_⟩
    rintro _ ⟨⟩
    have hbytes : (ips.flatMap fun ip => writeRecord (encodeName hostname) typeA dnsCacheFlushClassIn
        ttlSeconds (ipToBytes ip)) = (ips.map (addressRecord hostname)).flatMap WireRecord.bytes := by
      rw [List.flatMap_map]
      rfl
    obtain ⟨ms, hparsed, hread⟩ := parseResponse_wire (addressRecords_fit hhost hquads)
      (by rwa [List.length_map])
    rw [List.length_map] at hparsed
    refine ⟨by simp [MdnsResponse.unicastResponseRequested], _, ?_, isResponse_flags ms, rfl, ?_⟩
    · rw [hbytes]
      exact hparsed
    · exact map_addressRecords hquads hread
  · rw [List.filter_cons_of_neg hask, List.filter_nil, if_pos (by simp)]
    exact ⟨none, rfl, iff_of_false (by simp) fun h => hask (hasked.mpr h.2), by simp⟩

/-- A device that asks for its own hostname answers. -/
theorem host_query_answered_pixel : ∃ answer,
    buildHostResponseIfMatch (buildQuery "pixel.local" typeA true) "pixel.local" ["10.0.0.7"] =
      .ok (some answer) ∧ answer.unicastResponseRequested = true := by
  have hsend := sendable_pixel 0
  obtain ⟨answer, hanswer, hiff, hread⟩ := host_query_answered hsend.hostname hsend.hostname
    hsend.ips (by decide) typeA true
  have hself : eqIgnoreAsciiCase (readBack (pixel 0).targetHostname) (pixel 0).targetHostname = true :=
    by decide +kernel
  obtain ⟨r, rfl⟩ := Option.isSome_iff_exists.mp
    (hiff.mpr ⟨List.cons_ne_nil _ _, hself, .inl rfl⟩)
  exact ⟨r, hanswer, (hread r rfl).1⟩

/-- A name with an empty label is not read back as itself, not even up to case. -/
theorem eqIgnoreAsciiCase_readBack_self : eqIgnoreAsciiCase (readBack hostname) hostname = true ↔
    hostname = "" ∨ ∀ label ∈ hostname.toList.splitOn '.', label ≠ [] := by
  constructor
  · intro h
    by_cases hempty : hostname = ""
    · exact .inl hempty
    refine .inr ?_
    rw [eqIgnoreAsciiCase, decide_eq_true_eq, lower_readBack] at h
    set pieces := (hostname.toList.map Char.toLower).splitOn '.' with hpieces
    have hne : pieces.filter (· ≠ []) ≠ [] := by
      intro hnil
      rw [hnil, List.intercalate_nil, eq_comm, List.map_eq_nil_iff] at h
      exact hempty (String.toList_eq_nil_iff.mp h)
    have hsplit : pieces = pieces.filter (· ≠ []) := by
      conv_lhs => rw [hpieces, ← h]
      exact List.splitOn_intercalate '.'
        (fun piece hp => Components.not_mem_of_mem_splitOn (List.mem_filter.mp hp).1) hne
    intro label hlabel hnil
    have hin : label.map Char.toLower ∈ pieces := by
      rw [hpieces, splitOn_map_toLower]
      exact List.mem_map_of_mem hlabel
    rw [hsplit] at hin
    exact of_decide_eq_true (List.mem_filter.mp hin).2 (by rw [hnil]; rfl)
  · rintro (rfl | h)
    · decide +kernel
    · rw [(readBack_eq_self_iff.mpr h).2, eqIgnoreAsciiCase, decide_eq_true rfl]

/-- Without a service, the hostname is announced on an interface just when it has no empty label. -/
theorem hostname_announced_iff {r : HostResponder} {ip : String} (hnone : r.serviceInfo = none)
    (hhost : ∀ label ∈ splitLabels r.hostname, (Text.bytes label).length ≤ 191) (hip : DottedQuad ip) :
    ∃ answer, r.announcement ip = .ok answer ∧ (answer.isSome ↔
      r.hostname = "" ∨ ∀ label ∈ r.hostname.toList.splitOn '.', label ≠ []) := by
  obtain ⟨answer, hanswer, hiff, -⟩ := host_query_answered hhost hhost
    (List.forall_mem_singleton.mpr hip) (by simp) typeA false
  rw [eqIgnoreAsciiCase_readBack_self] at hiff
  refine ⟨answer.map MdnsResponse.bytes, ?_, ?_⟩
  · rw [HostResponder.announcement, hnone]
    dsimp only
    rw [hanswer]
    rfl
  · rw [Option.isSome_map, hiff]
    simp

end Answers

end PlainRs.Mdns
