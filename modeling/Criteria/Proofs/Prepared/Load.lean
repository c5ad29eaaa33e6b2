import Criteria.Prepared.Load
import Criteria.Prepared.Standard
import Criteria.Proofs.Outcome
import Criteria.Proofs.Text.Utf8

/-!
# How loading ends

Loading prepared conditions ends with the conditions or with a fault. Most faults are told as what
is wrong with the file of that name; the others are no faults of the expression language. If the
formats add none of these, they come up in three places: the name, the bytes, and the nesting of JSON
text.

* `LoadFault.isForeign`: the faults that are not told;
* `Formats.IsTelling`: formats without foreign faults, and `Formats.telling`, which have none;
* `bytes_of_not_mem`, `load_of_undecoded`, `load_of_unparsed`, `load_of_parsed`: the stages of loading;
* `IsLoadable`: what is asked of a name and of a file, `exists_isForeign_load_iff`: each stage needs it;
* `load_told_iff`: when loading ends with conditions or is told.
-/

namespace Criteria

variable {nesting : Nat} {formats : Formats} {name : List Char} {source : Source}
  {bytes : List Nat} {content : List Char} {datum : Datum} {fault : LoadFault}

/-! ### Faults that are told -/

/-- Whether a fault is none of the expression language. -/
def LoadFault.isForeign : LoadFault → Bool
  | .nulInName => true
  | .nameTooLong | .missing | .directory => false
  | .notUtf8 _ => true
  | .notJson _ (.tooDeep _) => true
  | .notJson _ _ => false
  | .notYaml (.foreign _) => true
  | .notYaml (.refused _) => false
  | .notAMapping => false
  | .notValid (.foreign _) => true
  | .notValid (.invalid _ _) => false

/-- Every fault of the expression language is told, with the name of the file; the others have no
diagnostic at all. -/
theorem LoadFault.diagnostic?_cases (name : List Char) (fault : LoadFault) :
    fault.isForeign = true ∧ fault.diagnostic? name = none ∨
      fault.isForeign = false ∧ ∃ message, fault.diagnostic? name =
        some (.document message (some (String.ofList (FileName.simplify name)))) := by
  cases fault with
  | notJson text json => cases json <;> simp [diagnostic?, reason?, isForeign]
  | notYaml yaml => cases yaml <;> simp [diagnostic?, reason?, isForeign]
  | notValid invalid => cases invalid <;> simp [diagnostic?, reason?, isForeign]
  | _ => simp [diagnostic?, reason?, isForeign]

/-! ### Formats without foreign faults -/

/-- Reading YAML text fails by refusing the text only, and validating a document by finding it
invalid only. -/
structure Formats.IsTelling (formats : Formats) : Prop where
  readYaml (text : List Char) (message : String) :
    formats.readYaml text ≠ .error (.foreign message)
  validate (document : Entries) (message : String) :
    formats.validate document ≠ .error (.foreign message)

/-- Foreign faults of a reader as refusals. -/
def ReaderFault.telling : ReaderFault → ReaderFault
  | .refused message | .foreign message => .refused message

/-- Foreign faults of a validator as findings without problems. -/
def ValidatorFault.telling : ValidatorFault → ValidatorFault
  | .invalid message problems => .invalid message problems
  | .foreign message => .invalid message []

/-- Formats that tell each of their faults. -/
def Formats.telling (formats : Formats) : Formats where
  readYaml text := (formats.readYaml text).mapError ReaderFault.telling
  validate document := (formats.validate document).mapError ValidatorFault.telling

theorem Formats.isTelling_telling (formats : Formats) : formats.telling.IsTelling where
  readYaml text message h := by
    obtain ⟨fault, -, hfault⟩ := Outcome.mapError_eq_error.1 h
    cases fault <;> cases hfault
  validate document message h := by
    obtain ⟨fault, -, hfault⟩ := Outcome.mapError_eq_error.1 h
    cases fault <;> cases hfault

/-! ### The stages of loading -/

theorem bytes_of_mem (h : '\x00' ∈ name) : source.bytes name = .error .nulInName := by
  rw [Source.bytes.eq_def, if_pos (List.contains_iff_mem.2 h)]

theorem bytes_of_not_mem (h : '\x00' ∉ name) :
    source.bytes name =
      match source with
      | .missing => .error (missingFault name)
      | .directory => .error .directory
      | .file bytes => .ok bytes := by
  have hcontains : name.contains '\x00' = false :=
    Bool.eq_false_iff.2 fun hmem => h (List.contains_iff_mem.1 hmem)
  cases source <;> simp only [Source.bytes.eq_def, hcontains, Bool.false_eq_true, if_false]

theorem load_of_error (h : source.bytes name = .error fault) :
    load nesting formats name source = .error fault := by
  rw [load, h, Outcome.error_bind]

theorem load_of_undecoded {undecoded : Utf8.Fault} (h : source.bytes name = .ok bytes)
    (hdecode : Utf8.decode bytes = .error undecoded) :
    load nesting formats name source = .error (.notUtf8 undecoded) := by
  rw [load, h, Outcome.ok_bind, hdecode]
  rfl

theorem load_of_unparsed (h : source.bytes name = .ok bytes)
    (hdecode : Utf8.decode bytes = .ok content)
    (hparse : parseDocument nesting formats name (unifyLineEnds content) = .error fault) :
    load nesting formats name source = .error fault := by
  rw [load, h, Outcome.ok_bind, hdecode, Except.mapError, Outcome.ok_bind, hparse,
    Outcome.error_bind]

theorem load_of_parsed (h : source.bytes name = .ok bytes)
    (hdecode : Utf8.decode bytes = .ok content)
    (hparse : parseDocument nesting formats name (unifyLineEnds content) = .ok datum) :
    load nesting formats name source = (mappingOf datum >>= fun entries =>
      (formats.validate (documentOf entries)).mapError .notValid) := by
  rw [load, h, Outcome.ok_bind, hdecode, Except.mapError, Outcome.ok_bind, hparse, Outcome.ok_bind]

/-! ### Faults of the stages -/

/-- JSON text in the file of a name is nested too deeply. -/
def IsTooDeep (nesting : Nat) (name content : List Char) : Prop :=
  FileName.isJson name = true ∧ ∃ kind, Json.read nesting (Text.ofChars content) =
    .error (.tooDeep kind)

/-- A text is read or refused, unless it is JSON text that is nested too deeply. -/
theorem isForeign_iff_of_unparsed (hformats : formats.IsTelling)
    (h : parseDocument nesting formats name content = .error fault) :
    fault.isForeign = true ↔ IsTooDeep nesting name content := by
  rw [parseDocument] at h
  split at h
  case isTrue hjson =>
    dsimp only at h
    split at h
    case h_1 => cases h
    case h_2 json hread =>
      cases h
      rw [IsTooDeep, and_iff_right hjson, hread]
      cases json <;> simp [LoadFault.isForeign]
  case isFalse hyaml =>
    obtain ⟨yaml, hread, rfl⟩ := Outcome.mapError_eq_error.1 h
    cases yaml with
    | refused => exact iff_of_false Bool.false_ne_true fun hdeep => hyaml hdeep.1
    | foreign => exact absurd hread (hformats.readYaml _ _)

/-- A text that is read is not nested too deeply. -/
theorem not_isTooDeep_of_parsed (h : parseDocument nesting formats name content = .ok datum) :
    ¬IsTooDeep nesting name content := by
  rintro ⟨hjson, kind, hread⟩
  rw [parseDocument, if_pos hjson] at h
  dsimp only at h
  rw [hread] at h
  cases h

/-- What is read is found to be conditions, or the fault is told. -/
theorem isForeign_of_validated (hformats : formats.IsTelling)
    (h : (mappingOf datum >>= fun entries =>
      (formats.validate (documentOf entries)).mapError .notValid) = .error fault) :
    fault.isForeign = false := by
  rcases Outcome.bind_eq_error.1 h with hmapping | ⟨entries, -, hvalidate⟩
  · rw [mappingOf.eq_def] at hmapping
    split at hmapping <;> cases hmapping
    rfl
  · obtain ⟨invalid, hinvalid, rfl⟩ := Outcome.mapError_eq_error.1 hvalidate
    cases invalid with
    | invalid => rfl
    | foreign => exact absurd hinvalid (hformats.validate _ _)

theorem isForeign_missingFault : (missingFault name).isForeign = false := by
  rw [missingFault]
  split
  case isTrue => rfl
  case isFalse => split <;> rfl

/-! ### How loading ends -/

/-- Where loading stays within the expression language: the name can be looked up, and a file has the
bytes of a text that is not nested too deeply. -/
def IsLoadable (nesting : Nat) (name : List Char) (source : Source) : Prop :=
  '\x00' ∉ name ∧ ∀ bytes, source = .file bytes →
    ∃ content, bytes = Utf8.textBytes content ∧ ¬IsTooDeep nesting name (unifyLineEnds content)

theorem isLoadable_file_iff (hname : '\x00' ∉ name) (h : Utf8.decode bytes = .ok content) :
    IsLoadable nesting name (.file bytes) ↔ ¬IsTooDeep nesting name (unifyLineEnds content) := by
  constructor
  · rintro ⟨-, hfile⟩
    obtain ⟨other, hbytes, hdeep⟩ := hfile bytes rfl
    obtain rfl := Except.ok.inj (h.symm.trans (Utf8.decode_eq_ok_iff.2 hbytes))
    exact hdeep
  · rintro hdeep
    refine ⟨hname, fun other hother => ⟨content, ?_, hdeep⟩⟩
    obtain rfl := Source.file.inj hother
    exact Utf8.decode_eq_ok_iff.1 h

theorem exists_isForeign_error_iff {α : Type} :
    (∃ other, (.error fault : Except LoadFault α) = .error other ∧ other.isForeign = true) ↔
      fault.isForeign = true := by
  simp

/-- Loading ends with a fault that is none of the expression language in these cases only: the stages
of loading, one after another. -/
theorem exists_isForeign_load_iff (hformats : formats.IsTelling) :
    (∃ fault, load nesting formats name source = .error fault ∧ fault.isForeign = true) ↔
      ¬IsLoadable nesting name source := by
  by_cases hname : '\x00' ∈ name
  · rw [load_of_error (bytes_of_mem hname), exists_isForeign_error_iff]
    exact iff_of_true rfl fun hloadable => hloadable.1 hname
  have hbytes := @bytes_of_not_mem name source hname
  cases source with
  | missing =>
    rw [load_of_error hbytes, exists_isForeign_error_iff, isForeign_missingFault]
    exact iff_of_false Bool.false_ne_true fun hnot => hnot ⟨hname, fun _ hfile => nomatch hfile⟩
  | directory =>
    rw [load_of_error hbytes, exists_isForeign_error_iff]
    exact iff_of_false Bool.false_ne_true fun hnot => hnot ⟨hname, fun _ hfile => nomatch hfile⟩
  | file bytes =>
    cases hdecode : Utf8.decode bytes with
    | error undecoded =>
      rw [load_of_undecoded hbytes hdecode, exists_isForeign_error_iff]
      refine iff_of_true rfl fun hloadable => ?_
      obtain ⟨content, hcontent, -⟩ := hloadable.2 bytes rfl
      cases hdecode.symm.trans (Utf8.decode_eq_ok_iff.2 hcontent)
    | ok content =>
      rw [isLoadable_file_iff hname hdecode, not_not]
      cases hparse : parseDocument nesting formats name (unifyLineEnds content) with
      | error unparsed =>
        rw [load_of_unparsed hbytes hdecode hparse, exists_isForeign_error_iff]
        exact isForeign_iff_of_unparsed hformats hparse
      | ok datum =>
        rw [load_of_parsed hbytes hdecode hparse]
        refine iff_of_false ?_ (not_isTooDeep_of_parsed hparse)
        rintro ⟨invalid, hinvalid, hforeign⟩
        cases (isForeign_of_validated hformats hinvalid).symm.trans hforeign

/-- If the formats add no foreign faults, loading ends with conditions, each name once, or with a
fault that is told with the name of the file, exactly if the name can be looked up and a file has the
bytes of a text, not nested too deeply. Otherwise it ends with a fault that is none of the expression
language. -/
theorem load_told_iff (nesting : Nat) (formats : Formats) (hformats : formats.IsTelling)
    (name : List Char) (source : Source) :
    ((∃ conditions, load nesting formats name source = .ok conditions) ∨
        (∃ fault message, load nesting formats name source = .error fault ∧
          fault.diagnostic? name =
            some (.document message (some (String.ofList (FileName.simplify name))))) ↔
      IsLoadable nesting name source) ∧
    (¬IsLoadable nesting name source →
      ∃ fault, load nesting formats name source = .error fault ∧
        fault.diagnostic? name = none) := by
  have hforeign := @exists_isForeign_load_iff nesting formats name source hformats
  constructor
  · cases hload : load nesting formats name source with
    | ok conditions =>
      have hloadable : IsLoadable nesting name source := by
        by_contra hnot
        obtain ⟨_, hfault, -⟩ := hforeign.2 hnot
        cases hload.symm.trans hfault
      exact iff_of_true (.inl ⟨conditions, rfl⟩) hloadable
    | error fault =>
      rw [hload, exists_isForeign_error_iff] at hforeign
      rcases fault.diagnostic?_cases name with ⟨htrue, hnone⟩ | ⟨hfalse, message, htold⟩
      · refine iff_of_false ?_ (hforeign.1 htrue)
        rintro (⟨_, hok⟩ | ⟨_, message, herror, htold⟩)
        · cases hok
        · cases herror
          cases hnone.symm.trans htold
      · refine iff_of_true (.inr ⟨fault, message, rfl, htold⟩) ?_
        by_contra hnot
        exact Bool.false_ne_true (hfalse.symm.trans (hforeign.2 hnot))
  · intro hnot
    obtain ⟨fault, hload, hforeign⟩ := hforeign.2 hnot
    rcases fault.diagnostic?_cases name with ⟨-, hnone⟩ | ⟨hfalse, -⟩
    · exact ⟨fault, hload, hnone⟩
    · cases hfalse.symm.trans hforeign

/-- A file whose text ends inside quotes is loadable, so that something is told of it. -/
theorem load_told_iff_unterminated :
    Formats.standard.telling.IsTelling ∧
      IsLoadable 999 "a.yaml".toList (.file (Utf8.textBytes "a: \"".toList)) ∧
      ∃ fault message, load 999 Formats.standard.telling "a.yaml".toList
          (.file (Utf8.textBytes "a: \"".toList)) = .error fault ∧
        fault.diagnostic? "a.yaml".toList = some (.document message (some "a.yaml")) := by
  have htelling := Formats.isTelling_telling .standard
  have hloadable : IsLoadable 999 "a.yaml".toList (.file (Utf8.textBytes "a: \"".toList)) :=
    ⟨by decide, fun bytes hbytes =>
      ⟨_, (Source.file.inj hbytes).symm, fun hdeep => absurd hdeep.1 (by decide)⟩⟩
  refine ⟨htelling, hloadable, ((load_told_iff 999 _ htelling _ _).1.2 hloadable).resolve_left ?_⟩
  rintro ⟨conditions, hload⟩
  have hfault : load 999 Formats.standard.telling "a.yaml".toList
      (.file (Utf8.textBytes "a: \"".toList)) = .error (.notYaml (.refused "malformed")) := by
    decide +kernel
  cases hload.symm.trans hfault

/-- A byte that begins no character is not told, wherever it is found. -/
theorem load_not_told :
    load 999 .standard "a.yaml".toList (.file [0xFF]) = .error (.notUtf8 ⟨.start, 0xFF, 0, 1⟩) ∧
      (LoadFault.notUtf8 ⟨.start, 0xFF, 0, 1⟩).diagnostic? "a.yaml".toList = none :=
  ⟨by decide, by decide⟩

end Criteria
