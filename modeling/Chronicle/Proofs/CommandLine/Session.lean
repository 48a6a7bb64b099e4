import Chronicle.Proofs.Archive.Processing
import Chronicle.Proofs.CommandLine.Arguments
import Chronicle.Proofs.CommandLine.Bound
/-!
What a session reports.

With `--json` a session ends with an exit code, and what it writes to the standard output is
decided by whether the run completes (`Completes`): the arguments are accepted, a grammar is loaded
from the file that they name, and some number of batches finishes the procedure on it.  There is
one such run at most.  Every stage has its own way to fail, and a session that fails has written
nothing (`session_reports`).
-/

namespace Chronicle.CommandLine

variable {arguments : List String} {file : String → FileContent} {options : Options} {g : Grammar}
  {r r' : Run Procedure.Step}

/-! ### The request for the final state -/

/-- The word is the value of no option, so wherever it stands it is the request. -/
theorem Item.isJson_of_mem {item : Item} (h : "--json" ∈ item.words) : item.isJson = true := by
  cases item with
  | json => rfl
  | procedure option spelled p =>
      rcases List.mem_pair.mp h with rfl | hname
      · simp at spelled
      · cases p <;> simp [Procedure.name] at hname
  | batchSize value size denotes fits =>
      obtain rfl : "--json" = value := by simpa [words] using h
      cases parseDecimal?_of_denotes denotes fits
  | input word bare => exact absurd (List.mem_singleton.mp h).symm (ne_option_of_bare bare).2.2

theorem json_of_mem (hjson : "--json" ∈ arguments)
    (h : Options.ofArguments arguments = .ok options) : options.json = true := by
  obtain ⟨items, rfl, hitems⟩ := ofArguments_eq_ok_iff.mp h
  obtain ⟨input, -, rfl⟩ := ofItems_eq_ok_iff.mp hitems
  obtain ⟨item, hitem, hword⟩ := List.mem_flatMap.mp hjson
  exact List.any_eq_true.mpr ⟨item, hitem, item.isJson_of_mem hword⟩

/-! ### The run of a session -/

/-- The settings that the options ask for. -/
def Options.config (options : Options) : RunConfig :=
  options.batchSteps.elim {} ({} : RunConfig).withBatchSteps

/-- The run of the procedure on the grammar completes, and leaves this. -/
def Options.Finishes (options : Options) (g : Grammar) (r : Run Procedure.Step) : Prop :=
  ∃ rounds, (Run.execute Procedure.library rounds).apply
    (options.procedure.start (.ofGrammar g) options.config) = (.ok .finished, r)

/-- The arguments are accepted, the file that they name is a text, a grammar is loaded from it, and
the run of the procedure on it completes and leaves this. -/
def Completes (arguments : List String) (file : String → FileContent) (r : Run Procedure.Step) :
    Prop :=
  ∃ options text g, Options.ofArguments arguments = .ok options ∧
    file options.input = .text text ∧ Grammar.load text = .ok g ∧ options.Finishes g r

theorem Options.Finishes.unique (h : options.Finishes g r) (h' : options.Finishes g r') :
    r = r' := by
  obtain ⟨rounds, hexecute⟩ := h
  obtain ⟨rounds', hexecute'⟩ := h'
  have hmore := Run.execute_eq_finished_of_le hexecute (le_max_left rounds rounds')
  have hmore' := Run.execute_eq_finished_of_le hexecute' (le_max_right rounds rounds')
  exact congrArg Prod.snd (hmore.symm.trans hmore')

theorem Completes.unique (h : Completes arguments file r) (h' : Completes arguments file r') :
    r = r' := by
  obtain ⟨options, text, g, hoptions, hfile, hload, hfinishes⟩ := h
  obtain ⟨options', text', g', hoptions', hfile', hload', hfinishes'⟩ := h'
  obtain rfl := Except.ok.inj (hoptions.symm.trans hoptions')
  obtain rfl := FileContent.text.inj (hfile.symm.trans hfile')
  obtain rfl := Except.ok.inj (hload.symm.trans hload')
  exact hfinishes.unique hfinishes'

/-! ### What is written -/

/-- The exit code, and what is written to the standard output, of a session whose run completes in
one of the given ways, or in none. -/
inductive Reports (completes : Run Procedure.Step → Prop) : (code : Nat) → (output : String) → Prop
  | final {r : Run Procedure.Step} {data : SnapshotData} (finished : completes r)
      (final : r.finalSnapshot? = some data) :
      Reports completes 0 (data.toJson.prettyText ++ "\n")
  | nothing (never : ∀ r, ¬completes r) : Reports completes 1 ""

theorem Reports.congr {completes completes' : Run Procedure.Step → Prop} {code : Nat}
    {output : String} (h : Reports completes code output) (hiff : ∀ r, completes r ↔ completes' r) :
    Reports completes' code output := by
  obtain rfl : completes = completes' := funext fun r => propext (hiff r)
  exact h

/-- The bound on the batches makes no difference to what is written. -/
theorem runProcedure_reports (hjson : options.json = true) (hbuilt : g.Built)
    (written : List String) :
    ∃ code output errors, runProcedure options g written = .exit code output errors ∧
      Reports (options.Finishes g) code output := by
  have hends := (endsBy_stepBound hbuilt options.procedure options.config).execute_eq
  unfold Options.config at hends
  unfold runProcedure
  rcases hends with ⟨r, hexecute⟩ | ⟨e, r, hexecute, hnever⟩
  · obtain ⟨data, hfinal⟩ := Run.exists_final_of_execute hexecute
    simp only [hexecute, hjson, hfinal, if_true]
    exact ⟨_, _, _, rfl, .final ⟨_, hexecute⟩ hfinal⟩
  · simp only [hexecute, hjson, if_true]
    refine ⟨_, _, _, rfl, .nothing fun r' hfinishes => ?_⟩
    obtain ⟨rounds, hfinished⟩ := hfinishes
    exact hnever rounds r' hfinished

theorem loadAndRun_reports (hjson : options.json = true) (text : String) :
    ∃ code output errors, loadAndRun options text = .exit code output errors ∧
      Reports (fun r => ∃ g, Grammar.load text = .ok g ∧ options.Finishes g r) code output := by
  unfold loadAndRun
  cases hload : Grammar.load text with
  | error e =>
      refine ⟨_, _, _, rfl, .nothing fun r hc => ?_⟩
      obtain ⟨g, hg, -⟩ := hc
      cases hg
  | ok g =>
      obtain ⟨data, hdata⟩ := Grammar.exists_data_of_load hload
      obtain ⟨code, output, errors, hexit, hreports⟩ :=
        runProcedure_reports hjson (.ofData hdata) _
      exact ⟨code, output, errors, hexit, hreports.congr fun r => by simp⟩

/-- **A session reports the run that completes, or that there is none.** -/
theorem session_reports (program : String) (hjson : "--json" ∈ arguments)
    (file : String → FileContent) :
    ∃ code output errors, session program arguments file = .exit code output errors ∧
      Reports (Completes arguments file) code output := by
  unfold session Completes
  cases hoptions : Options.ofArguments arguments with
  | error e =>
      refine ⟨_, _, _, rfl, .nothing fun r hc => ?_⟩
      obtain ⟨options, text, g, haccepted, -⟩ := hc
      cases haccepted
  | ok options =>
      simp only [Except.ok.injEq]
      cases hfile : file options.input with
      | missing | directory | notText =>
          refine ⟨_, _, _, rfl, .nothing fun r hc => ?_⟩
          obtain ⟨_, text, g, rfl, htext, -⟩ := hc
          cases hfile.symm.trans htext
      | text text =>
          obtain ⟨code, output, errors, hexit, hreports⟩ :=
            loadAndRun_reports (json_of_mem hjson hoptions) text
          refine ⟨code, output, errors, hexit, hreports.congr fun r => ?_⟩
          constructor
          · rintro ⟨g, hrest⟩
            exact ⟨options, text, g, rfl, hfile, hrest⟩
          · rintro ⟨_, _, g, rfl, htext, hrest⟩
            obtain rfl := FileContent.text.inj (hfile.symm.trans htext)
            exact ⟨g, hrest⟩

/-- **With `--json` a session writes to the standard output exactly if it exits with code 0**, and
that is exactly if the run completes: whatever the arguments besides and whatever the files.

What is written is one JSON document then, and is read as the final snapshot of that run.  In all
other cases the code is 1. -/
theorem json_session (program : String) (hjson : "--json" ∈ arguments)
    (file : String → FileContent) :
    ∃ code output errors, session program arguments file = .exit code output errors ∧
      (output ≠ "" ↔ code = 0) ∧ (code = 0 ↔ ∃ r, Completes arguments file r) ∧
      (∀ r, Completes arguments file r → ∃ final, r.finalSnapshot? = some final ∧
        (Json.ofText? output).bind SnapshotData.ofJson? = some final) ∧
      (code ≠ 0 → code = 1 ∧ output = "") := by
  obtain ⟨code, output, errors, hexit, hreports⟩ := session_reports program hjson file
  refine ⟨code, output, errors, hexit, ?_⟩
  cases hreports with
  | @final r data hcompletes hfinal =>
      have hwritten : data.toJson.prettyText ++ "\n" ≠ "" := by simp
      refine ⟨iff_of_true hwritten rfl, iff_of_true rfl ⟨r, hcompletes⟩, fun r' hcompletes' => ?_,
        fun hne => absurd rfl hne⟩
      obtain rfl := hcompletes.unique hcompletes'
      refine ⟨data, hfinal, ?_⟩
      rw [Json.ofText?_prettyText_append (SnapshotData.faithful.proper data), Option.bind_some,
        SnapshotData.faithful.read_write]
  | nothing never =>
      have hnone : ¬∃ r, Completes arguments file r := fun hcompletes => by
        obtain ⟨r, hr⟩ := hcompletes
        exact never r hr
      exact ⟨by simp, iff_of_false (by simp) hnone, fun r hr => absurd hr (never r),
        fun _ => ⟨rfl, rfl⟩⟩

/-- The text of the grammar `S -> a`. -/
def letterText : String :=
  "\x7b\"N\":[\"S\"],\"T\":[\"a\"],\"P\":\x7b\"S\":[\"a\"]\x7d,\"S\":\"S\"\x7d"

/-- A directory with one file in it. -/
def letterFile (name : String) : FileContent :=
  if name = "letter.json" then .text letterText else .missing

/-- The grammar of that text. -/
def letter : Grammar where
  nonterminals := .ofList [("S", .none)]
  terminals := .ofList [("a", .none)]
  rules := .ofList [("S", .ofList [(⟨["a"]⟩, .none)])]
  start := "S"

theorem load_letterText : Grammar.load letterText = .ok letter := by decide +kernel

theorem json_session_letter :
    "--json" ∈ ["letter.json", "--json"] ∧
    ∃ output errors r final,
      session "chronicle" ["letter.json", "--json"] letterFile = .exit 0 output errors ∧
      output ≠ "" ∧ Completes ["letter.json", "--json"] letterFile r ∧
      r.finalSnapshot? = some final ∧
      (Json.ofText? output).bind SnapshotData.ofJson? = some final := by
  have hjson : "--json" ∈ ["letter.json", "--json"] := by simp
  have hoptions : Options.ofArguments ["letter.json", "--json"]
      = .ok ⟨"letter.json", .reduce, none, true⟩ := by decide
  have hanswer : ((Run.execute Procedure.library 1).apply
      (Procedure.start .reduce (.ofGrammar letter) {})).1 = .ok .finished := by decide +kernel
  rcases hexecute : (Run.execute Procedure.library 1).apply
    (Procedure.start .reduce (.ofGrammar letter) {}) with ⟨answer, r⟩
  rw [hexecute] at hanswer
  obtain rfl : answer = .ok .finished := hanswer
  have hcompletes : Completes ["letter.json", "--json"] letterFile r :=
    ⟨_, letterText, letter, hoptions, if_pos rfl, load_letterText, 1, hexecute⟩
  obtain ⟨code, output, errors, hexit, hwritten, hcode, hfinal, -⟩ :=
    json_session "chronicle" hjson letterFile
  obtain ⟨final, hsome, hread⟩ := hfinal _ hcompletes
  obtain rfl := hcode.mpr ⟨r, hcompletes⟩
  exact ⟨hjson, output, errors, r, final, hexit, hwritten.mpr rfl, hcompletes, hsome, hread⟩

end Chronicle.CommandLine
