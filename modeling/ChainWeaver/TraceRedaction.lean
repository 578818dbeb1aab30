import ChainWeaver.TraceStoreLaws

/-!
# Redacted traces

What redaction leaves readable of a result, and what a redacting store puts into
its file.
-/

namespace ChainWeaver

-- Lines of a payload

theorem splitlinesFrom_cons (h : c = '\r' → ∀ after, text ≠ '\n' :: after) :
    splitlinesFrom line (c :: text) =
      if endsLine c then line.reverse :: splitlinesFrom [] text else splitlinesFrom (c :: line) text := by
  rw [splitlinesFrom]
  exact fun after hc htext => h hc after htext

theorem splitlinesFrom_newline (line text rest : Text) :
    splitlinesFrom line (text ++ '\n' :: rest) = splitlinesFrom line (text ++ ['\n']) ++ splitlines rest := by
  fun_induction splitlinesFrom line text with
  | case1 | case2 => simp [splitlinesFrom, endsLine, splitlines]
  | case3 line text ih => simp only [List.cons_append, splitlinesFrom, ih]
  | case4 line c text hnot hends ih =>
    by_cases hreturn : c = '\r' ∧ text = []
    · obtain ⟨rfl, rfl⟩ := hreturn
      simp [splitlinesFrom, splitlines]
    · have hnext : ∀ tail, c = '\r' → ∀ after, text ++ '\n' :: tail ≠ '\n' :: after := by
        rintro tail hc after heq
        cases text with
        | nil => exact hreturn ⟨hc, rfl⟩
        | cons d text =>
          obtain ⟨rfl, -⟩ := List.cons.inj heq
          exact hnot text hc rfl
      rw [List.cons_append, List.cons_append, splitlinesFrom_cons (hnext rest), splitlinesFrom_cons (hnext []),
        if_pos hends, if_pos hends, ih, List.cons_append]
  | case5 line c text hnot hends ih =>
    have hreturn : c ≠ '\r' := by
      rintro rfl
      exact hends rfl
    rw [List.cons_append, List.cons_append, splitlinesFrom_cons fun hc => absurd hc hreturn,
      splitlinesFrom_cons fun hc => absurd hc hreturn, if_neg hends, if_neg hends, ih]

theorem splitlines_newline (text rest : Text) :
    splitlines (text ++ '\n' :: rest) = splitlines (text ++ ['\n']) ++ splitlines rest :=
  splitlinesFrom_newline [] text rest

namespace FileTraceStore

variable {store : FileTraceStore}

/-- Of the lines that the result's text falls into, the reader accepts only
texts of the same document. -/
def Faithful (store : FileTraceStore) (result : ExecutionResult) : Prop :=
  ∀ line, store.dumpJson result = some line → ∀ piece ∈ splitlines (line ++ ['\n']), ∀ read,
    store.validate (strip piece) = some read → read.tree store.writer = result.tree store.writer

theorem dumpJson_congr {read result : ExecutionResult} (h : read.tree store.writer = result.tree store.writer) :
    store.dumpJson read = store.dumpJson result := by
  rw [dumpJson, dumpJson, h]

/-- Whatever the reader makes of a payload has the document of a result in it. -/
theorem readAll_documents (results : List ExecutionResult) (htext : store.payload results = some text)
    (hfaithful : ∀ result ∈ results, store.Faithful result) :
    ∀ read ∈ store.readAll (some text), ∃ result ∈ results, read.tree store.writer = result.tree store.writer := by
  induction results generalizing text with
  | nil =>
    obtain rfl := Option.some.inj htext
    nofun
  | cons result rest ih =>
    simp only [payload, Option.bind_eq_bind, Option.bind_eq_some_iff, Option.pure_def, Option.some.injEq] at htext
    obtain ⟨line, hline, after, hafter, rfl⟩ := htext
    rw [List.forall_mem_cons] at hfaithful
    intro read hread
    rw [readAll, splitlines_newline, List.map_append, List.filter_append, List.filterMap_append,
      List.mem_append] at hread
    rcases hread with hread | hread
    · obtain ⟨stripped, hstripped, hvalid⟩ := List.mem_filterMap.1 hread
      obtain ⟨piece, hpiece, rfl⟩ := List.mem_map.1 (List.mem_of_mem_filter hstripped)
      exact ⟨result, List.mem_cons_self, hfaithful.1 line hline piece hpiece read hvalid⟩
    · obtain ⟨other, hother, htree⟩ := ih hafter hfaithful.2 read hread
      exact ⟨other, List.mem_cons_of_mem _ hother, htree⟩

/-- The file is the payload of results that satisfy `P`. -/
def Wrote (store : FileTraceStore) (P : ExecutionResult → Prop) (file : File) : Prop :=
  ∀ text, file = some text → ∃ results, store.payload results = some text ∧ ∀ result ∈ results, P result

theorem payload_documents {P : ExecutionResult → Prop} (reads : List ExecutionResult)
    (h : ∀ read ∈ reads, ∃ result, P result ∧ read.tree store.writer = result.tree store.writer) :
    ∃ results, store.payload results = store.payload reads ∧ ∀ result ∈ results, P result := by
  induction reads with
  | nil => exact ⟨[], rfl, by simp⟩
  | cons read rest ih =>
    rw [List.forall_mem_cons] at h
    obtain ⟨⟨result, hresult, htree⟩, hrest⟩ := h
    obtain ⟨results, hpayload, hresults⟩ := ih hrest
    refine ⟨result :: results, ?_, List.forall_mem_cons.2 ⟨hresult, hresults⟩⟩
    rw [payload, payload, dumpJson_congr htree, hpayload]

theorem writeAll_wrote {P : ExecutionResult → Prop} (hfile : store.Wrote P file)
    (h : ∀ read ∈ reads, ∃ result, P result ∧ read.tree store.writer = result.tree store.writer) :
    store.Wrote P (store.writeAll reads file).2 := by
  obtain ⟨results, hpayload, hresults⟩ := payload_documents reads h
  unfold writeAll
  split
  · next text htext =>
    rintro _ ⟨⟩
    exact ⟨results, hpayload.trans htext, hresults⟩
  · exact hfile

theorem step_wrote {P : ExecutionResult → Prop} (hfaithful : ∀ result, P result → store.Faithful result)
    (hfile : store.Wrote P file) (hsave : ∀ result, op = .save result → P (store.redacted result)) :
    store.Wrote P (store.step file op).2 := by
  have hread : ∀ read ∈ store.readAll file, ∃ result, P result ∧ read.tree store.writer = result.tree store.writer := by
    cases file with
    | none => nofun
    | some text =>
      obtain ⟨results, htext, hresults⟩ := hfile text rfl
      intro read hmem
      obtain ⟨result, hresult, htree⟩ :=
        readAll_documents results htext (fun result h => hfaithful result (hresults result h)) read hmem
      exact ⟨result, hresults result hresult, htree⟩
  cases op with
  | save result =>
    refine writeAll_wrote hfile fun read hmem => ?_
    obtain hmem | hmem := List.mem_append.1 (mem_rotated hmem)
    · exact hread read (List.mem_of_mem_filter hmem)
    · rw [List.mem_singleton.1 hmem]
      exact ⟨_, hsave result rfl, rfl⟩
  | delete traceId => exact writeAll_wrote hfile fun read hmem => hread read (List.mem_of_mem_filter hmem)
  | load | listTraceIds | len => exact hfile

theorem after_wrote (P : ExecutionResult → Prop) (hfaithful : ∀ result, P result → store.Faithful result)
    (hsave : ∀ result, .save result ∈ ops → P (store.redacted result)) :
    store.Wrote P (store.machine.after ops) := by
  have hstart : store.Wrote P store.machine.start := nofun
  have hstep : ∀ file op, store.Wrote P file → op ∈ ops → store.Wrote P (store.machine.step file op).2 :=
    fun file op hfile hop => step_wrote hfaithful hfile fun result heq => hsave result (heq ▸ hop)
  exact Machine.after_keeps hstart hstep fun op hop => hop

end FileTraceStore

-- What stays masked

namespace RedactionPolicy

/-- A redacted result is masked exactly if the results nested in its log were
masked before. Where they are, the file of a redacting store never holds anything
but masked results. -/
theorem redaction_masks (lower : String → String) (policy : RedactionPolicy) :
    (∀ result, policy.MaskedResult lower (policy.redactExecutionResult lower result) ↔
      ∀ sub, SubResult result sub → policy.MaskedResult lower sub) ∧
    ∀ (store : FileTraceStore) (ops : List TraceOp), store.lower = lower → store.redactionPolicy = some policy →
      (∀ result, .save result ∈ ops → store.Faithful (store.redacted result)) →
      (∀ result, .save result ∈ ops → ∀ sub, SubResult result sub → policy.MaskedResult lower sub) →
      ∀ text, store.machine.after ops = some text →
        ∃ results, store.payload results = some text ∧ ∀ result ∈ results, policy.MaskedResult lower result := by
  refine ⟨maskedResult_redact, ?_⟩
  rintro store ops rfl hpolicy hfaithful hsub
  have hsave : ∀ result, .save result ∈ ops → store.Faithful (store.redacted result) ∧
      policy.MaskedResult store.lower (store.redacted result) := by
    intro result hmem
    refine ⟨hfaithful result hmem, ?_⟩
    rw [FileTraceStore.redacted, hpolicy]
    exact (maskedResult_redact result).2 (hsub result hmem)
  have hwrote := FileTraceStore.after_wrote
    (fun result => store.Faithful result ∧ policy.MaskedResult store.lower result) (fun _ h => h.1) hsave
  intro text htext
  obtain ⟨results, hpayload, hresults⟩ := hwrote text htext
  exact ⟨results, hpayload, fun result h => (hresults result h).2⟩

section

def loginStep : StepRecord where
  stepIndex := 0
  toolName := "login"
  inputs := .ofList [("user", .str "ada"), ("Password", .str "hunter2")]

def loginResult : ExecutionResult where
  flowName := "session"
  flowVersion := "1.0"
  success := true
  finalOutput := none
  executionLog := [loginStep]
  traceId := "a"

/-- `lower` on ASCII. -/
def asciiLower (text : String) : String := String.ofList (text.toList.map Char.toLower)

/-- A store of the redacted login, whose text is the only one its reader knows. -/
def loginStore : FileTraceStore :=
  { FileTraceStore.sampleStore "" with
    validate := fun line =>
      if line = FileTraceStore.sampleText (({} : RedactionPolicy).redactExecutionResult asciiLower loginResult) then
        some (({} : RedactionPolicy).redactExecutionResult asciiLower loginResult)
      else none
    lower := asciiLower
    redactionPolicy := some {} }

theorem redaction_masks_login : ∀ text, loginStore.machine.after [.save loginResult, .len] = some text →
    ∃ results, loginStore.payload results = some text ∧
      ∀ result ∈ results, ({} : RedactionPolicy).MaskedResult asciiLower result := by
  refine (redaction_masks asciiLower {}).2 loginStore [.save loginResult, .len] rfl rfl ?_ ?_
  · intro result hmem line _ piece _ read hread
    obtain rfl : result = loginResult := by simpa using hmem
    simp only [loginStore] at hread
    split at hread
    · obtain rfl := Option.some.inj hread
      rfl
    · cases hread
  · intro result hmem sub hsub
    obtain rfl : result = loginResult := by simpa using hmem
    obtain ⟨step, hstep, hresult⟩ := hsub
    obtain rfl : step = loginStep := by simpa [loginResult] using hstep
    cases hresult

/-- The login as a step of another flow. -/
def composedResult : ExecutionResult :=
  { loginResult with
    flowName := "day"
    executionLog := [{ stepIndex := 0, toolName := "session", inputs := .empty, subResult := some loginResult }] }

/-- The password of a nested login is still there. -/
theorem redaction_misses_nested : ¬ ∀ (lower : String → String) (policy : RedactionPolicy) (result : ExecutionResult),
    policy.MaskedResult lower (policy.redactExecutionResult lower result) := by
  intro h
  have hsub : SubResult composedResult loginResult := ⟨_, List.mem_cons_self, rfl⟩
  have hnested := (maskedResult_redact composedResult).1 (h asciiLower {} composedResult) loginResult hsub
  have hinputs := (hnested loginResult .refl).inputs loginStep List.mem_cons_self
  have hpassword : (if ({} : RedactionPolicy).matchesKey asciiLower "Password" then
      Value.str "hunter2" = .str "***REDACTED***" else True) := hinputs.2.1
  have hmatches : ({} : RedactionPolicy).matchesKey asciiLower "Password" = true := by decide +kernel
  rw [if_pos hmatches, Value.str.injEq] at hpassword
  exact absurd hpassword (by decide)

end

end RedactionPolicy

end ChainWeaver
