import Mathlib
import Sexpr.Command.Run
import Sexpr.Proofs.Form.Places
import Sexpr.Proofs.Relocation

/-!
# Places in a file

A run that refuses its file names places in the source, which is what is left of the
file behind a dropped language line. In the file they stand further behind, by as many
characters as that line has (`places_of_fileUnparsable`): a place that a run names is a
place in the file exactly if no line is dropped.
-/

namespace Sexpr

/-! ## The language line -/

namespace Config

variable (config : Config) (contents : String)

/-- The first line of the file is a language line, and is dropped. -/
def DropsLine : Prop :=
  config.target = .js ∧ config.js.skipLangLine = true ∧ "#lang".toList <+: contents.toList

/-- How many characters of the file stand before its source. -/
def dropped : Nat := contents.length - (config.sourceOf contents).length

theorem sourceOf_of_dropsLine {config : Config} {contents : String}
    (h : config.DropsLine contents) :
    (config.sourceOf contents).toList = (contents.toList.dropWhile (· != '\n')).drop 1 := by
  obtain ⟨htarget, hskip, hline⟩ := h
  have hscript : (config.target = .js && config.js.skipLangLine) = true := by
    simp [htarget, hskip]
  rw [sourceOf, if_pos hscript, stripLangLine, if_pos (List.isPrefixOf_iff_prefix.2 hline),
    String.toList_ofList]

theorem sourceOf_of_not_dropsLine {config : Config} {contents : String}
    (h : ¬ config.DropsLine contents) : config.sourceOf contents = contents := by
  unfold sourceOf stripLangLine
  split
  · next hscript =>
    obtain ⟨htarget, hskip⟩ : config.target = .js ∧ config.js.skipLangLine = true := by
      simpa using hscript
    split
    · next hline => exact absurd ⟨htarget, hskip, List.isPrefixOf_iff_prefix.1 hline⟩ h
    · rfl
  · rfl

/-- A dropped line is not empty. -/
theorem length_sourceOf_lt {config : Config} {contents : String}
    (h : config.DropsLine contents) :
    (config.sourceOf contents).toList.length < contents.toList.length := by
  rw [sourceOf_of_dropsLine h]
  obtain ⟨-, -, tail, htail⟩ := h
  have hrest : contents.toList.dropWhile (· != '\n') = tail.dropWhile (· != '\n') := by
    rw [← htail]
    rfl
  have htailLength : (tail.dropWhile (· != '\n')).length ≤ tail.length :=
    (List.dropWhile_suffix _).length_le
  rw [hrest, ← htail, List.length_append, List.length_drop]
  simp only [String.reduceToList, List.length_cons]
  omega

theorem suffix_sourceOf : (config.sourceOf contents).toList <:+ contents.toList := by
  by_cases hdrops : config.DropsLine contents
  · rw [sourceOf_of_dropsLine hdrops]
    exact (List.drop_suffix _ _).trans (List.dropWhile_suffix _)
  · rw [sourceOf_of_not_dropsLine hdrops]

/-- The file is some characters with the source behind them. They are none exactly if no
line is dropped. -/
theorem exists_front : ∃ front, contents.toList = front ++ (config.sourceOf contents).toList ∧
    front.length = config.dropped contents ∧ (front = [] ↔ ¬ config.DropsLine contents) := by
  obtain ⟨front, hfront⟩ := suffix_sourceOf config contents
  have hlength := congrArg List.length hfront
  rw [List.length_append] at hlength
  refine ⟨front, hfront.symm, ?_, ?_⟩
  · rw [dropped, ← String.length_toList, ← String.length_toList]
    omega
  · constructor
    · rintro rfl hdrops
      have hshorter := length_sourceOf_lt hdrops
      rw [List.length_nil] at hlength
      omega
    · intro hkeeps
      rw [sourceOf_of_not_dropsLine hkeeps] at hlength
      exact List.eq_nil_of_length_eq_zero (by omega)

end Config

/-! ## Places behind the line -/

namespace Position

variable {front text : List Char} {c : Char} {p : Position}

theorem Marks.exists_behind (h : p.Marks text c) :
    ∃ cs rest, text = cs ++ c :: rest ∧ p = behind cs := by
  obtain ⟨offset, line, column⟩ := p
  obtain ⟨hi, hc⟩ := List.getElem?_eq_some_iff.1 h.char
  have hlength : (text.take offset).length = offset := List.length_take_of_le hi.le
  refine ⟨text.take offset, text.drop (offset + 1), ?_, ?_⟩
  · rw [← hc, ← List.drop_eq_getElem_cons hi, List.take_append_drop]
  · rw [behind, hlength, ← h.line, ← h.column]

/-- What is marked in a text is marked behind other characters too, at the moved place. -/
theorem Marks.shifted (h : p.Marks text c) :
    (p.shifted (front ++ text) front.length).Marks (front ++ text) c := by
  obtain ⟨cs, rest, rfl, rfl⟩ := h.exists_behind
  rw [shifted_behind, ← List.append_assoc]
  exact marks_behind (front ++ cs) rest c

/-- It is the same place only behind nothing. -/
theorem Marks.shifted_eq_iff (h : p.Marks text c) :
    p.shifted (front ++ text) front.length = p ↔ front = [] := by
  obtain ⟨cs, rest, rfl, rfl⟩ := h.exists_behind
  rw [shifted_behind]
  constructor
  · intro hsame
    have hlength := congrArg offset hsame
    rw [offset_behind, offset_behind, List.length_append] at hlength
    exact List.eq_nil_of_length_eq_zero (by omega)
  · rintro rfl
    rfl

end Position

/-! ## Runs that refuse their file -/

theorem renderFile_eq_error {config : Config} {name file contents : String} {cause : Fault}
    (h : renderFile config name contents = .error (.fileUnparsable file cause)) :
    name = file ∧ parse (config.sourceOf contents) = .error cause := by
  unfold renderFile at h
  cases hparse : parse (config.sourceOf contents) with
  | error fault =>
      rw [hparse] at h
      cases h
      exact ⟨rfl, rfl⟩
  | ok forms =>
      rw [hparse] at h
      cases hrender : render config forms with
      | error fault => simp [hrender, Except.mapError, bind, Except.bind] at h
      | ok output => simp [hrender, Except.mapError, bind, Except.bind] at h

namespace Command

variable {read : String → Except ReadFault String} {a : Arguments} {file : String} {cause : Fault}

/-- A run without effects: the configuration, the file, and what is made of both. -/
theorem run_eq (read : String → Except ReadFault String) (a : Arguments) :
    (run (m := Id) read a).run = (configOf (m := Id) read a).run.bind fun config =>
      ((read a.file).mapError (.fileUnreadable a.file)).bind (renderFile config a.file) := by
  unfold run
  rw [ExceptT.run_bind]
  cases (configOf (m := Id) read a).run with
  | error failure => rfl
  | ok config =>
      dsimp only [Except.bind]
      cases read a.file with
      | error fault => rfl
      | ok contents => rfl

/-- The configuration that a run is given: the defaults, or what a file says. -/
def givenConfig (read : String → Except ReadFault String) : Option String → Except Failure Config
  | none => .ok {}
  | some path =>
      match read path with
      | .error fault => .error (.configUnreadable path fault)
      | .ok text =>
          match Config.ofJsonText? text with
          | none => .error (.configInvalid path)
          | some config => .ok config

/-- The configuration of a run without effects. -/
theorem configOf_eq (read : String → Except ReadFault String) (a : Arguments) :
    (configOf (m := Id) read a).run =
      (givenConfig read a.config).map fun config => config.withTarget a.target := by
  unfold configOf givenConfig
  cases a.config with
  | none => rfl
  | some path =>
      dsimp only
      cases read path with
      | error fault => rfl
      | ok text =>
          -- the effects are undone, so that the choice on the JSON text is in the open
          dsimp only [bind, ExceptT.bind, ExceptT.run, ExceptT.mk, ExceptT.bindCont, liftM,
            monadLift, MonadLift.monadLift, ExceptT.lift, Functor.map]
          cases Config.ofJsonText? text with
          | none => rfl
          | some config => rfl

/-- No configuration is refused as a file is. -/
theorem configOf_ne_fileUnparsable (read : String → Except ReadFault String) (a : Arguments)
    (file : String) (cause : Fault) :
    (configOf (m := Id) read a).run ≠ .error (.fileUnparsable file cause) := by
  rw [configOf_eq, givenConfig.eq_def]
  intro h
  split at h
  · cases h
  · split at h
    · cases h
    · split at h <;> cases h

/-- A file that is refused has been read, and its source is refused. -/
theorem parse_of_run (h : (run (m := Id) read a).run = .error (.fileUnparsable file cause)) :
    ∃ config contents, (configOf (m := Id) read a).run = .ok config ∧ a.file = file ∧
      read a.file = .ok contents ∧ parse (config.sourceOf contents) = .error cause := by
  rw [run_eq] at h
  cases hconfig : (configOf (m := Id) read a).run with
  | error failure =>
      rw [hconfig] at h
      cases h
      exact absurd hconfig (configOf_ne_fileUnparsable read a file cause)
  | ok config =>
      rw [hconfig] at h
      cases hread : read a.file with
      | error fault =>
          rw [Except.bind, hread] at h
          cases h
      | ok contents =>
          rw [Except.bind, hread] at h
          obtain ⟨hfile, hparse⟩ := renderFile_eq_error h
          exact ⟨config, contents, rfl, hfile, rfl, hparse⟩

/-- A run that fails has had arguments. -/
theorem exists_arguments_of_respond {words : List String} {failure : Failure}
    (h : (respond (m := Id) read words).run = .failed failure) :
    ∃ a, Arguments.ofWords words = .ok a ∧ (run (m := Id) read a).run = .error failure := by
  unfold respond at h
  cases hwords : Arguments.ofWords words with
  | error stop =>
      rw [hwords] at h
      cases stop <;> cases h
  | ok a =>
      rw [hwords] at h
      dsimp only at h
      cases hrun : (run (m := Id) read a).run with
      | error failure' =>
          rw [hrun] at h
          cases h
          exact ⟨a, rfl, hrun⟩
      | ok output =>
          rw [hrun] at h
          cases h

/-- **What a refused run names.** The places are those of the fault in the source. Each of
them, moved by the length of what is dropped, is the place in the file of what the fault is
about; and it is that place as it stands exactly if no line is dropped. -/
theorem places_of_fileUnparsable {words : List String}
    (h : (respond (m := Id) read words).run = .failed (.fileUnparsable file cause)) :
    ∃ a config contents, Arguments.ofWords words = .ok a ∧ a.file = file ∧
      (configOf (m := Id) read a).run = .ok config ∧ read a.file = .ok contents ∧
      parse (config.sourceOf contents) = .error cause ∧
      Position.named cause.message.toList = cause.positions ∧
      ∀ p ∈ cause.positions, ∃ c, cause.culprit? = some c ∧
        (p.shifted contents.toList (config.dropped contents)).Marks contents.toList c ∧
        (p.shifted contents.toList (config.dropped contents) = p ↔
          ¬ config.DropsLine contents) := by
  obtain ⟨a, hwords, hrun⟩ := exists_arguments_of_respond h
  obtain ⟨config, contents, hconfig, hfile, hread, hparse⟩ := parse_of_run hrun
  have htruthful := Fault.truthful_of_parse hparse
  obtain ⟨front, hcontents, hlength, hfront⟩ := config.exists_front contents
  refine ⟨a, config, contents, hwords, hfile, hconfig, hread, hparse, htruthful.message, ?_⟩
  intro p hp
  obtain ⟨c, hculprit, hmarks⟩ := htruthful.places p hp
  rw [← hlength, hcontents, ← hfront]
  exact ⟨c, hculprit, hmarks.shifted, hmarks.shifted_eq_iff⟩

/-- A quote with no partner, behind a language line, for a script. -/
theorem places_of_openQuote :
    (respond (m := Id) (fun _ => .ok "#lang racket\n(a \"b") ["-t", "js", "f.sx"]).run =
        .failed (.fileUnparsable "f.sx" (.scan (.unterminatedText ⟨3, 1, 4⟩))) ∧
      ∃ a config contents, Arguments.ofWords ["-t", "js", "f.sx"] = .ok a ∧ a.file = "f.sx" ∧
        (configOf (m := Id) (fun _ => .ok "#lang racket\n(a \"b") a).run = .ok config ∧
        Except.ok "#lang racket\n(a \"b" = (.ok contents : Except ReadFault String) ∧
        parse (config.sourceOf contents) = .error (.scan (.unterminatedText ⟨3, 1, 4⟩)) ∧
        Position.named (Fault.scan (.unterminatedText ⟨3, 1, 4⟩)).message.toList =
          [⟨3, 1, 4⟩] ∧
        ∀ p ∈ [(⟨3, 1, 4⟩ : Position)], ∃ c, some '"' = some c ∧
          (p.shifted contents.toList (config.dropped contents)).Marks contents.toList c ∧
          (p.shifted contents.toList (config.dropped contents) = p ↔
            ¬ config.DropsLine contents) := by
  have hrefused :
      (respond (m := Id) (fun _ => .ok "#lang racket\n(a \"b") ["-t", "js", "f.sx"]).run =
        .failed (.fileUnparsable "f.sx" (.scan (.unterminatedText ⟨3, 1, 4⟩))) := by
    decide +kernel
  exact ⟨hrefused, places_of_fileUnparsable hrefused⟩

/-- The right bracket in the second line of the file is said to be its first character. -/
theorem misplaced_close_behind_langLine :
    (respond (m := Id) (fun _ => .ok "#lang racket\n)") ["-t", "js", "f.sx"]).run =
        .failed (.fileUnparsable "f.sx" (.scan (.unexpectedClose ⟨0, 1, 1⟩))) ∧
      ¬ (⟨0, 1, 1⟩ : Position).Marks "#lang racket\n)".toList ')' ∧
      (⟨13, 2, 1⟩ : Position).Marks "#lang racket\n)".toList ')' := by
  refine ⟨by decide +kernel, ?_, ?_⟩
  · intro h
    exact absurd h.char (by decide)
  · exact Position.marks_behind "#lang racket\n".toList [] ')'

end Command
end Sexpr
