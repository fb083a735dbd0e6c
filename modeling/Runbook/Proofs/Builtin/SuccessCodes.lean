import Mathlib.Data.List.SplitBy
import Runbook.Proofs.Builtin.AllOrNothing

/-!
# Success codes

The codes that count as success are listed in a text, as words with commas and blanks between them.
`Worded` says which words a text has, and a text of codes is read as the numbers that its words
write (`readCodes_eq_ok_iff`).

A step that gives no codes has the code zero, and so should a step whose text lists none.  But a
text of commas is not blank, and it is read as a list without codes, with which no process succeeds.
`Step.judgedByCodes` says that this is the only exception, and how a process that ends by itself is
judged.
-/

namespace Runbook

open Runbook.Text

variable {σ : Type}

/-! ## Words -/

/-- A text is made of words, and of separators before, between and after them. -/
inductive Worded : List Char → List (List Char) → Prop where
  /-- Nothing but separators. -/
  | none {gap : List Char} : (∀ c ∈ gap, codeWords.isBreak c = true) → Worded gap []
  /-- A word, which ends where the text does or at a separator. -/
  | word {gap w rest : List Char} {ws : List (List Char)} :
      (∀ c ∈ gap, codeWords.isBreak c = true) → w ≠ [] →
      (∀ c ∈ w, codeWords.isBreak c = false) →
      (∀ c ∈ rest.head?, codeWords.isBreak c = true) → Worded rest ws →
      Worded (gap ++ (w ++ rest)) (w :: ws)

namespace Worded

/-- A separator in front changes no word. -/
theorem cons_break {c : Char} (hc : codeWords.isBreak c = true) {cs : List Char}
    {ws : List (List Char)} (h : Worded cs ws) : Worded (c :: cs) ws := by
  cases h with
  | none hgap => exact .none (List.forall_mem_cons.mpr ⟨hc, hgap⟩)
  | word hgap hne hw hrest hws =>
    exact .word (List.forall_mem_cons.mpr ⟨hc, hgap⟩) hne hw hrest hws

theorem word_head {w rest : List Char} {ws : List (List Char)} (hne : w ≠ [])
    (hw : ∀ c ∈ w, codeWords.isBreak c = false)
    (hrest : ∀ c ∈ rest.head?, codeWords.isBreak c = true) (hws : Worded rest ws) :
    Worded (w ++ rest) (w :: ws) :=
  List.nil_append (w ++ rest) ▸ .word nofun hne hw hrest hws

/-- Every text has words. -/
theorem exists_words : ∀ cs : List Char, ∃ ws, Worded cs ws
  | [] => ⟨[], .none nofun⟩
  | c :: cs => by
      obtain ⟨ws, h⟩ := exists_words cs
      cases hc : codeWords.isBreak c with
      | true => exact ⟨ws, h.cons_break hc⟩
      | false =>
        have hsingle : ∀ d ∈ [c], codeWords.isBreak d = false := by simpa using hc
        -- The character starts a word of its own, unless one follows at once.
        cases h with
        | none hgap =>
          refine ⟨[[c]], .word_head (List.cons_ne_nil c []) hsingle ?_ (.none hgap)⟩
          exact fun d hd => hgap d (List.mem_of_head? hd)
        | @word gap w rest ws hgap hne hw hrest hws =>
          cases gap with
          | nil =>
            exact ⟨(c :: w) :: ws, .word_head (List.cons_ne_nil c w)
              (List.forall_mem_cons.mpr ⟨hc, hw⟩) hrest hws⟩
          | cons d gap =>
            refine ⟨[c] :: w :: ws, .word_head (List.cons_ne_nil c []) hsingle ?_
              (.word hgap hne hw hrest hws)⟩
            intro e he
            cases he
            exact hgap d List.mem_cons_self

end Worded

/-! ## Words as they are read -/

theorem codeWords_append {cs ds : List Char}
    (h : ∀ c ∈ cs.getLast?, ∀ d ∈ ds.head?,
      codeWords.isBreak c = true ∨ codeWords.isBreak d = true) :
    codeWords (cs ++ ds) = codeWords cs ++ codeWords ds := by
  rw [codeWords, List.splitBy_append, List.filter_append, codeWords, codeWords]
  intro c hc d hd
  obtain hbreak | hbreak := h c hc d hd <;> simp [hbreak]

/-- Separators are no words. -/
theorem codeWords_gap {gap : List Char} (h : ∀ c ∈ gap, codeWords.isBreak c = true) :
    codeWords gap = [] := by
  rw [codeWords, List.filter_eq_nil_iff]
  intro w hw
  have hne : w ≠ [] := List.ne_nil_of_mem_splitBy hw
  obtain ⟨c, hc⟩ := List.exists_mem_of_ne_nil w hne
  have hgap : c ∈ gap := by
    rw [← List.flatten_splitBy (fun a b => !codeWords.isBreak a && !codeWords.isBreak b) gap]
    exact List.mem_flatten.mpr ⟨w, hw, hc⟩
  simpa using ⟨c, hc, h c hgap⟩

/-- A word alone is one word. -/
theorem codeWords_word {w : List Char} (hne : w ≠ [])
    (h : ∀ c ∈ w, codeWords.isBreak c = false) : codeWords w = [w] := by
  have hchain : w.IsChain fun a b =>
      (!codeWords.isBreak a && !codeWords.isBreak b) = true := by
    rw [List.isChain_iff_getElem]
    intro i hi
    simp [h]
  have hkeep : w.any codeWords.isBreak = false := by simpa using h
  rw [codeWords, List.splitBy_of_isChain hne hchain, List.filter_cons_of_pos (by simp [hkeep]),
    List.filter_nil]

theorem Worded.codeWords_eq {cs : List Char} {ws : List (List Char)} (h : Worded cs ws) :
    codeWords cs = ws := by
  induction h with
  | none hgap => exact codeWords_gap hgap
  | word hgap hne hw hrest _ ih =>
    rw [codeWords_append fun c hc _ _ => .inl (hgap c (List.mem_of_getLast? hc)),
      codeWords_append fun _ _ d hd => .inr (hrest d hd), codeWords_gap hgap,
      codeWords_word hne hw, ih]
    rfl

/-- The words that are read are those of which the text is made. -/
theorem codeWords_eq_iff {cs : List Char} {ws : List (List Char)} :
    codeWords cs = ws ↔ Worded cs ws := by
  refine ⟨?_, Worded.codeWords_eq⟩
  rintro rfl
  obtain ⟨ws, h⟩ := Worded.exists_words cs
  rwa [h.codeWords_eq]

/-- A text without words is made of separators. -/
theorem codeWords_eq_nil_iff {cs : List Char} :
    codeWords cs = [] ↔ ∀ c ∈ cs, codeWords.isBreak c = true := by
  refine ⟨fun h => ?_, codeWords_gap⟩
  cases codeWords_eq_iff.mp h with
  | none hgap => exact hgap

/-! ## Codes -/

/-- A text lists codes: the words of which it is made write them, one after the other, and they are
numbers of 32 bits. -/
def ListsCodes (cs : List Char) (codes : List Int) : Prop :=
  ∃ ws, Worded cs ws ∧
    List.Forall₂ (fun w n => WritesInt w n ∧ -2 ^ 31 ≤ n ∧ n < 2 ^ 31) ws codes

theorem readCodes_eq_ok_iff {step : String} {codes : List Int} : ∀ {ws : List (List Char)},
    readCodes step ws = .ok codes ↔
      List.Forall₂ (fun w n => WritesInt w n ∧ -2 ^ 31 ≤ n ∧ n < 2 ^ 31) ws codes
  | [] => by
      rw [readCodes, List.forall₂_nil_left_iff, Except.ok.injEq, eq_comm]
  | w :: ws => by
      have hcode : ∀ n, readSigned? 10 maxInt32 w = some n ↔
          WritesInt w n ∧ -2 ^ 31 ≤ n ∧ n < 2 ^ 31 := by
        intro n
        rw [readSigned?_eq_some_iff, maxInt32]
        constructor
        · rintro ⟨hlow, hhigh, hw⟩
          exact ⟨hw, by omega, by omega⟩
        · rintro ⟨hw, hlow, hhigh⟩
          exact ⟨by omega, by omega, hw⟩
      rw [readCodes, List.forall₂_cons_left_iff]
      cases hread : readSigned? 10 maxInt32 w with
      | none =>
        refine iff_of_false nofun ?_
        rintro ⟨n, ns, hn, -⟩
        rw [(hcode n).mpr hn] at hread
        cases hread
      | some n =>
        dsimp only
        constructor
        · intro h
          cases hrest : readCodes step ws with
          | error e =>
            rw [hrest] at h
            cases h
          | ok ns =>
            rw [hrest] at h
            cases h
            exact ⟨n, ns, (hcode n).mp hread, readCodes_eq_ok_iff.mp hrest, rfl⟩
        · rintro ⟨m, ns, hm, hns, rfl⟩
          rw [(hcode m).mpr hm] at hread
          cases hread
          rw [readCodes_eq_ok_iff.mpr hns]
          rfl

/-! ## What a step says about codes -/

namespace Step

variable {s : Step} {store : Store}

/-- The step names no code: its text of codes is not there, or is made of separators. -/
def NamesNoCode (s : Step) (store : Store) : Prop :=
  ∀ raw, s.property? "SuccessCodes" = some raw →
    ∀ c ∈ (store.expand raw).toList, codeWords.isBreak c = true

/-- Some code counts as success: zero if the step names none, or else those that it lists. -/
structure HasCodes (s : Step) (store : Store) (codes : List Int) : Prop where
  /-- There is a code. -/
  nonempty : codes ≠ []
  /-- The code of a step that names none. -/
  unnamed : s.NamesNoCode store → codes = [0]
  /-- The codes of a step that names some. -/
  named : ∀ raw, s.property? "SuccessCodes" = some raw → ¬ s.NamesNoCode store →
    ListsCodes (store.expand raw).toList codes

/-- The text of codes is made of separators, and not all of them are blanks. -/
def NamesOnlyCommas (s : Step) (store : Store) : Prop :=
  s.NamesNoCode store ∧ s.given? store "SuccessCodes" ≠ none

theorem isBreak_of_isBlankText {t : String} (h : isBlankText t = true) :
    ∀ c ∈ t.toList, codeWords.isBreak c = true := by
  intro c hc
  rw [codeWords.isBreak, List.all_eq_true.mp h c hc, Bool.or_true]

/-- A step that does not give its codes names none. -/
theorem namesNoCode_of_given? (h : s.given? store "SuccessCodes" = none) : s.NamesNoCode store :=
  fun raw hraw => isBreak_of_isBlankText (given?_eq_none_iff.mp h raw hraw)

/-- The codes of a step are those that it names, unless its text of codes names none and is still
not blank: then it has no code. -/
theorem hasCodes_of_successCodes {codes : List Int} (h : s.successCodes store = .ok codes) :
    (s.HasCodes store codes ↔ ¬ s.NamesOnlyCommas store) ∧
      (s.NamesOnlyCommas store → codes = []) := by
  rw [successCodes] at h
  split at h
  · next hnone =>
    cases h
    have hno := namesNoCode_of_given? hnone
    refine ⟨iff_of_true ⟨List.cons_ne_nil 0 [], fun _ => rfl, fun _ _ hsome => absurd hno hsome⟩ ?_,
      fun honly => absurd hnone honly.2⟩
    exact fun honly => honly.2 hnone
  · next t hsome =>
    obtain ⟨raw, hraw, rfl, -⟩ := given?_eq_some_iff.mp hsome
    have hgiven : s.given? store "SuccessCodes" ≠ none := by
      rw [hsome]
      exact Option.some_ne_none _
    have hlists := readCodes_eq_ok_iff.mp h
    have hno : s.NamesNoCode store ↔ codeWords (store.expand raw).toList = [] := by
      rw [codeWords_eq_nil_iff]
      refine ⟨fun hno => hno raw hraw, fun hbreaks raw' hraw' => ?_⟩
      rw [hraw] at hraw'
      cases hraw'
      exact hbreaks
    have hempty : s.NamesNoCode store ↔ codes = [] := by
      rw [hno]
      exact ⟨fun hwords => by rwa [hwords, List.forall₂_nil_left_iff] at hlists,
        fun hcodes => by rwa [hcodes, List.forall₂_nil_right_iff] at hlists⟩
    refine ⟨⟨fun hcodes honly => hcodes.nonempty (hempty.mp honly.1), fun honly => ?_⟩,
      fun honly => hempty.mp honly.1⟩
    have hnamed : ¬ s.NamesNoCode store := fun hno => honly ⟨hno, hgiven⟩
    refine ⟨fun hcodes => hnamed (hempty.mpr hcodes), fun hno => absurd hno hnamed, ?_⟩
    intro raw' hraw' _
    rw [hraw] at hraw'
    cases hraw'
    exact ⟨_, codeWords_eq_iff.mp rfl, hlists⟩

/-- A process has the codes of its step. -/
theorem successCodes_of_processSpec {program : String} {arguments : List Argument}
    {spec : ProcessSpec} (h : s.processSpec store program arguments = .ok spec) :
    s.successCodes store = .ok spec.successCodes := by
  rw [processSpec] at h
  cases htimeout : s.parsed store "Timeout"
      (fun t => readUnsigned? 10 maxWord64 t.toList) defaultTimeout with
  | error e =>
    rw [htimeout] at h
    cases h
  | ok timeout =>
    rw [htimeout] at h
    cases hcodes : s.successCodes store with
    | error e =>
      rw [hcodes] at h
      cases h
    | ok codes =>
      rw [hcodes] at h
      cases h
      rfl

end Step

/-! ## How a process comes to an end -/

/-- What becomes of the step that starts a process, given what it would come to if nothing ended it,
and whether the run was cancelled. -/
inductive ProcessSpec.Fate (p : ProcessSpec) :
    Except String ProcessEnd → (cancelled : Bool) → Outcome → Prop where
  /-- The process could not be started. -/
  | unstarted {reason : String} {cancelled : Bool} {o : Outcome} :
      o.status = .failed → o.outputs = [] → Fate p (.error reason) cancelled o
  /-- The run was cancelled before the process ended. -/
  | killed {e : ProcessEnd} {o : Outcome} :
      o.status = .failed → o.outputs = [] → Fate p (.ok e) true o
  /-- The process took too long. -/
  | expired {e : ProcessEnd} {cancelled : Bool} {o : Outcome} : p.expires e = true →
      o.status = .failed → o.outputs = [("ExitCode", "-1")] → Fate p (.ok e) cancelled o
  /-- The process ended by itself and is judged by its exit code, which is put out. -/
  | ended {e : ProcessEnd} {cancelled : Bool} {o : Outcome} : p.expires e = false →
      o.status = (if e.code ∈ p.successCodes then .completed else .failed) →
      o.outputs.get? "ExitCode" = some (toString e.code) → Fate p (.ok e) cancelled o

/-- The exit code is put out, whatever else is. -/
theorem ProcessEnd.get?_outputs (e : ProcessEnd) (more : Pairs) :
    Pairs.get? (e.outputs ++ more) "ExitCode" = some (toString e.code) := by
  rw [outputs]
  split
  · rfl
  · rfl

section

variable {others : World σ → World σ → Prop} {w w' : World σ}
  {r : Ending (Except ExecutionError Outcome)}

theorem Execution.exists_of_close {status : Status} {error : Option String} {outputs : Pairs}
    (h : (World.onScene (close status error outputs)).Course others w r w') :
    ∃ o, r = .returned (.ok o) ∧ o.status = status ∧ o.outputs = outputs ∧ others w w' := by
  obtain ⟨v, hv, hdone⟩ := Activity.Course.of_look h
  obtain ⟨rfl, rfl⟩ := hdone.of_done
  exact ⟨_, rfl, rfl, rfl, hv⟩

/-- Whoever runs a process hears of its fate. -/
theorem ProcessSpec.exists_fate {spec : ProcessSpec} {host : Host σ} {more : Pairs}
    (hcancelled : ∀ w v, others w v → w.cancelled = true → v.cancelled = true)
    (h : (World.onScene (spec.run host more)).Course others w r w') :
    ∃ v o, others w v ∧ r = .returned (.ok o) ∧
      spec.Fate (host.start spec.launch v.surroundings).1 w'.cancelled o := by
  obtain ⟨v, hv, h⟩ := Activity.Course.of_look h
  obtain ⟨u, -, h⟩ := Activity.Course.of_update h
  refine ⟨v, ?_⟩
  split at h
  · next reason hstart =>
    obtain ⟨o, rfl, hstatus, houtputs, -⟩ := Execution.exists_of_close h
    exact ⟨o, hv, rfl, hstart ▸ .unstarted hstatus houtputs⟩
  · next e hstart =>
    obtain ⟨x, hx, h⟩ := Activity.Course.of_await h
    rw [hstart]
    dsimp only at h
    split_ifs at h with hkilled hexpired hsuccess
    · obtain ⟨o, rfl, hstatus, houtputs, hlast⟩ := Execution.exists_of_close h
      rw [hcancelled _ _ hlast hkilled]
      exact ⟨o, hv, rfl, .killed hstatus houtputs⟩
    · obtain ⟨o, rfl, hstatus, houtputs, -⟩ := Execution.exists_of_close h
      exact ⟨o, hv, rfl, .expired hexpired hstatus houtputs⟩
    · obtain ⟨o, rfl, hstatus, houtputs, -⟩ := Execution.exists_of_close h
      refine ⟨o, hv, rfl, .ended (Bool.eq_false_iff.mpr hexpired) ?_ ?_⟩
      · rw [hstatus, if_pos (List.contains_iff_mem.mp hsuccess)]
      · rw [houtputs]
        exact e.get?_outputs more
    · obtain ⟨o, rfl, hstatus, houtputs, -⟩ := Execution.exists_of_close h
      refine ⟨o, hv, rfl, .ended (Bool.eq_false_iff.mpr hexpired) ?_ ?_⟩
      · rw [hstatus, if_neg fun hmem => hsuccess (List.contains_iff_mem.mpr hmem)]
      · rw [houtputs, ← List.append_nil e.outputs]
        exact e.get?_outputs []

end

/-! ## Plans -/

theorem Plan.eq_ok_of_ofSpec {x : Except ExecutionError ProcessSpec} {more more' : Pairs}
    {spec : ProcessSpec} (h : Plan.ofSpec x more = .process spec more') : x = .ok spec := by
  cases x with
  | error e => cases h
  | ok p =>
    cases h
    rfl

/-- A process that a built-in executor starts is specified by the properties of its step. -/
theorem Kind.PlansBy.exists_processSpec {kind : Kind} {plan : Step → Store → Plan}
    (hplan : kind.PlansBy plan) {s : Step} {store : Store} {spec : ProcessSpec} {more : Pairs}
    (h : plan s store = .process spec more) :
    ∃ program arguments, s.processSpec store program arguments = .ok spec := by
  cases hplan with
  | setVariable => exact absurd h (Step.setVariablePlan_ne_process spec more)
  | restartComputer => exact absurd h (Step.restartPlan_ne_process spec more)
  | runCommandLine =>
    rw [Step.commandLinePlan] at h
    split at h
    · cases h
    · exact ⟨_, _, Plan.eq_ok_of_ofSpec h⟩
  | runPowerShell =>
    rw [Step.scriptPlan] at h
    split at h
    · cases h
    · exact ⟨_, _, Plan.eq_ok_of_ofSpec h⟩

/-- A step that starts a process has the codes that it names, or zero, unless its text of codes is
made of commas and blanks: then no code counts as success.  Its executor starts the process, and if
it ends by itself judges it by its exit code. -/
theorem Step.judgedByCodes (s : Step) (store : Store) :
    (∀ program arguments spec, s.processSpec store program arguments = .ok spec →
      (s.HasCodes store spec.successCodes ↔ ¬ s.NamesOnlyCommas store) ∧
        (s.NamesOnlyCommas store → spec.successCodes = [])) ∧
    ∀ kind plan spec more, Kind.PlansBy kind plan → plan s store = .process spec more →
      (∃ program arguments, s.processSpec store program arguments = .ok spec) ∧
      ∀ (host : Host σ) (others : World σ → World σ → Prop),
        (∀ w v, others w v → v.store = w.store ∧ (w.cancelled = true → v.cancelled = true)) →
        ∀ (c : Context) (w w' : World σ) (r : Ending (Except ExecutionError Outcome)),
          w.store = store →
          (World.onScene ((Executor.ofPlan host kind plan).execute s c)).Course others w r w' →
          ∃ (x : σ) (o : Outcome), r = .returned (.ok o) ∧
            spec.Fate (host.start spec.launch x).1 w'.cancelled o := by
  refine ⟨fun program arguments spec hspec => ?_, fun kind plan spec more hplan hprocess => ?_⟩
  · exact hasCodes_of_successCodes (successCodes_of_processSpec hspec)
  · refine ⟨hplan.exists_processSpec hprocess, fun host others hothers c w w' r hw hcourse => ?_⟩
    obtain ⟨v, hv, hfollow⟩ := Activity.Course.of_look hcourse
    have hstore : v.store = store := (hothers _ _ hv).1.trans hw
    change (World.onScene ((plan s v.store).follow host)).Course others v r w' at hfollow
    rw [hstore, hprocess] at hfollow
    obtain ⟨u, o, -, hr, hfate⟩ :=
      ProcessSpec.exists_fate (fun w v h => (hothers w v h).2) hfollow
    exact ⟨u.surroundings, o, hr, hfate⟩

/-- A process that ends with the second of the codes that its step lists. -/
theorem Step.judgedByCodes_second :
    let s := mk "s" "S" "" .runCommandLine true false []
      [("CommandLine", "exit 42"), ("SuccessCodes", "0, %C%")] []
    let host : Host Unit := ⟨fun _ u => (.ok ⟨42, [], [], 5⟩, u)⟩
    let w := { World.epoch with store := Store.after [.set "C" "+42"] }
    s.HasCodes w.store [0, 42] ∧ ∃ o w',
      (World.onScene ((Executor.ofPlan host .runCommandLine commandLinePlan).execute s
        (.new "run" "1" "one"))).Course Eq w (.returned (.ok o)) w' ∧
      o.status = .completed ∧ o.outputs.get? "ExitCode" = some "42" := by
  intro s host w
  have hplan : s.commandLinePlan w.store =
      .process ⟨⟨"sh", [.text "-c", .text "exit 42"], none⟩, 3600, [0, 42]⟩ [] := by
    decide +kernel
  have hcourse : (World.onScene ((Executor.ofPlan host .runCommandLine commandLinePlan).execute s
      (.new "run" "1" "one"))).Course Eq w
      (.returned (.ok ⟨.completed, none, [("ExitCode", "42")], some ⟨0, 0⟩⟩)) w := by
    refine .look rfl ?_
    change (World.onScene ((s.commandLinePlan w.store).follow host)).Course _ _ _ _
    rw [hplan]
    exact .look rfl (.update rfl (.await rfl (.look rfl .done)))
  obtain ⟨hcodes, hruns⟩ := judgedByCodes (σ := Unit) s w.store
  obtain ⟨⟨program, arguments, hspec⟩, hfate⟩ := hruns _ _ _ _ .runCommandLine hplan
  have hcommas : ¬ s.NamesOnlyCommas w.store := by
    intro h
    exact absurd (h.1 "0, %C%" (by decide) '0' (by decide +kernel)) (by decide)
  refine ⟨(hcodes _ _ _ hspec).1.mpr hcommas, _, _, hcourse, ?_⟩
  obtain ⟨_, o, hr, hfate⟩ :=
    hfate host Eq (fun _ _ h => h ▸ ⟨rfl, fun h => h⟩) _ _ _ _ rfl hcourse
  cases hr
  cases hfate with
  | expired _ hstatus _ => cases hstatus
  | ended _ hstatus hcode => exact ⟨rfl, hcode⟩

/-- Not every step that starts a process has a code: a comma names none, and is not blank. -/
theorem Step.not_hasCodes_comma : ¬ ∀ (s : Step) (store : Store) program arguments spec,
    s.processSpec store program arguments = .ok spec → s.HasCodes store spec.successCodes := by
  intro h
  let s := mk "s" "S" "" .runCommandLine true false []
    [("CommandLine", "exit 0"), ("SuccessCodes", ",")] []
  have hspec : s.processSpec Store.empty "sh" [.text "-c", .text "exit 0"] =
      .ok ⟨⟨"sh", [.text "-c", .text "exit 0"], none⟩, 3600, []⟩ := by
    decide +kernel
  exact (h s Store.empty _ _ _ hspec).nonempty rfl

end Runbook
