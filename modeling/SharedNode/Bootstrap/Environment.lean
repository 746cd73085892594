import SharedNode.Bootstrap.Serial
import SharedNode.Text.Shell

/-!
# The environment file of a node

`bootstrap.sh` sources the file of `renderEnvironment` as root. `shellValue` closes the single
quotes at a single quote, puts that one into double quotes and opens them again, so in a word the
text stands for the value whatever its bytes are (`quotes_shellValue`). Reading the file assigns the
variables of the request and does nothing else (`environment_sourced`); a NUL alone would be lost.
-/

namespace SharedNode.Bootstrap

open Text Shell

def quotedSymbols (value : Bytes) : List Symbol :=
  value.flatMap fun b => if b = 0x27 then [.quote, .quoted b, .quote] else [.quoted b]

theorem scan_inside (value rest : Bytes) :
    scan ((value.flatMap fun b => if b = 0x27 then lit "'\"'\"'" else [b]) ++ 0x27 ::
      rest) .single = (scan rest .word).map (quotedSymbols value ++ ·) := by
  induction value with
  | nil => rfl
  | cons b value ih =>
    rw [List.flatMap_cons, List.append_assoc, quotedSymbols, List.flatMap_cons, ← quotedSymbols]
    by_cases hb : b = 0x27
    · -- The quotes are closed, the byte stands in double quotes, and they are opened again.
      have hclose : next 0x27 .single = ([], .word) := rfl
      have hopen : next 0x22 .word = ([.quote], .double) := by decide
      have hbyte : next 0x27 .double = ([.quoted 0x27], .double) := rfl
      have hclose' : next 0x22 .double = ([], .word) := rfl
      have hopen' : next 0x27 .word = ([.quote], .single) := by decide
      have htext : ∀ x, lit "'\"'\"'" ++ x = 0x27 :: 0x22 :: 0x27 :: 0x22 :: 0x27 :: x :=
        fun _ => rfl
      rw [if_pos hb, if_pos hb, hb, htext, scan_cons hclose, scan_cons hopen, scan_cons hbyte,
        scan_cons hclose', scan_cons hopen', ih]
      simp only [Option.map_map]
      rfl
    · have hbyte : next b .single = ([.quoted b], .single) := if_neg hb
      rw [if_neg hb, if_neg hb, List.singleton_append, scan_cons hbyte, ih, Option.map_map]
      rfl

theorem quotes_shellValue (value : Bytes) : Quotes (shellValue value) value := by
  refine ⟨.quote :: quotedSymbols value, ?_, ?_, fun rest => ?_⟩
  · induction value with
    | nil => rfl
    | cons b value ih =>
      have hinside : (quotedSymbols value).filterMap Symbol.text = value := ih
      change (quotedSymbols (b :: value)).filterMap Symbol.text = b :: value
      rw [quotedSymbols, List.flatMap_cons, List.filterMap_append, ← quotedSymbols, hinside]
      by_cases hb : b = 0x27
      · rw [if_pos hb]
        rfl
      · rw [if_neg hb]
        rfl
  · intro x hx
    rcases List.mem_cons.mp hx with rfl | hx
    · exact Or.inl rfl
    · obtain ⟨b, -, hb⟩ := List.mem_flatMap.mp hx
      split at hb
      · simp only [List.mem_cons, List.not_mem_nil, or_false] at hb
        obtain rfl | rfl | rfl := hb
        exacts [Or.inl rfl, Or.inr ⟨b, rfl⟩, Or.inl rfl]
      · exact Or.inr ⟨b, List.mem_singleton.mp hb⟩
  · have hopen : lit "'" = [0x27] := rfl
    rw [shellValue, hopen, List.append_assoc, List.append_assoc, List.singleton_append,
      List.singleton_append, scan_cons (by decide : next 0x27 .word = ([.quote], .single)),
      scan_inside, Option.map_map]
    rfl

/-- The values that `renderEnvironment` writes. -/
def Request.rendered (r : Request) : List Bytes :=
  [r.nodeID, r.instanceID, r.config.logicalRegion, r.config.controlPlaneURL, r.enrollmentToken,
    r.address, r.config.objectStorageEndpoint, r.config.objectStorageRegion,
    r.config.objectStorageBucket, r.config.otlpEndpoint, r.config.otlpHeaders,
    r.config.releaseManifestURL, r.config.releaseManifestSHA256, r.config.dockerPackageVersion]

/-- **Sourcing the file of a request without NULs assigns each variable its value, byte for byte,
and does nothing else.** -/
theorem environment_sourced {r : Request} (h : ∀ s ∈ r.rendered, 0 ∉ s) (env : Env) :
    ∃ env', source (renderEnvironment r) env = some env' ∧
      (∀ entry ∈ environment r, env' entry.1 = some entry.2) ∧
      ∀ name ∉ (environment r).map (·.1), env' name = env name := by
  have htext : renderEnvironment r =
      (environment r).flatMap fun e => e.1 ++ 0x3d :: (shellValue e.2 ++ [0x0a]) := by
    refine List.flatMap_congr fun e _ => ?_
    rw [List.append_assoc, List.append_assoc]
    rfl
  have hnames : (environment r).map (·.1) = (environment {}).map (·.1) := rfl
  have hvalues : ∀ s ∈ (environment r).map (·.2), 0 ∉ s := by
    have hnumber : ∀ n : Int, 0 ∉ formatInt n := fun n => mt mem_formatInt (by decide)
    have hsplit : (environment r).map (·.2) = r.rendered ++ [r.expectedCapacity.totalMemoryMiB,
      r.expectedCapacity.totalSharedCPU, r.expectedCapacity.totalWorkspaceGiB,
      r.config.workspaceVolumeGiB, r.config.bootstrapTimeout].map formatInt := rfl
    rw [hsplit, List.forall_mem_append, List.forall_mem_map]
    exact ⟨h, fun n _ => hnumber n⟩
  have hname : ∀ e ∈ environment r, isName e.1 = true ∧ 0 ∉ e.1 := by
    intro e he
    have hall : ∀ name ∈ (environment {}).map (·.1), isName name = true ∧ 0 ∉ name := by
      decide +kernel
    exact hall e.1 (hnames ▸ List.mem_map_of_mem he)
  refine source_lines (fun e he => (hname e he).1) (fun e _ => quotes_shellValue e.2) ?_ ?_ env
  · intro hmem
    obtain ⟨e, he, hmem⟩ := List.mem_flatMap.mp hmem
    have hvalue := hvalues e.2 (List.mem_map_of_mem he)
    have hquote : 0 ∉ shellValue e.2 := by
      simp only [shellValue, List.mem_append, List.mem_flatMap, not_or, not_exists, not_and]
      refine ⟨⟨by decide, fun b hb => ?_⟩, by decide⟩
      split
      · decide
      · exact fun hzero => hvalue (List.mem_singleton.mp hzero ▸ hb)
    simp only [List.mem_append, List.mem_cons, List.not_mem_nil, or_false] at hmem
    obtain hmem | hmem | hmem | hmem := hmem
    · exact (hname e he).2 hmem
    · exact absurd hmem (by decide)
    · exact hquote hmem
    · exact absurd hmem (by decide)
  · rw [hnames]
    decide +kernel

/-- A valid request whose headers have quotes and what a shell would expand. -/
def shellRequest : Request :=
  { Sample.request with
    config := { Sample.request.config with
      otlpEndpoint := lit "https://o", otlpHeaders := lit "a='$(reboot)`id`\"" } }

theorem environment_sourced_sample : validate Sample.lib shellRequest = true ∧ ∃ env',
    source (renderEnvironment shellRequest) (fun _ => none) = some env' ∧
      env' (lit "OTEL_EXPORTER_OTLP_HEADERS") = some (lit "a='$(reboot)`id`\"") := by
  obtain ⟨env', hsource, hvalues, -⟩ :=
    environment_sourced (r := shellRequest) (by decide +kernel) fun _ => none
  have hentry : (environment shellRequest)[10]? =
    some (lit "OTEL_EXPORTER_OTLP_HEADERS", shellRequest.config.otlpHeaders) := rfl
  exact ⟨by decide +kernel, env', hsource, hvalues _ (List.mem_of_getElem? hentry)⟩

end SharedNode.Bootstrap
