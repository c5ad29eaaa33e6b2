import Mathlib.Data.List.SplitBy
import Mathlib.Data.List.TakeWhile
import Criteria.Proofs.FieldName

/-!
# Names of fields as chains of runs

A text is cut into its maximal runs of letters and digits, each with the gap behind it. A run is
linked to the next one if it has a letter, a single point is between them, and the next one begins
with a letter. The names of fields are the maximal chains of at least two linked runs, from the
first letter on.

* `Run`, `IsCut`: a run with its gap, and a text as a row of them; `exists_isCut` cuts any text;
* `Run.isLinked`, `Run.behind`: which runs are linked, and the text from behind a run to the end of
  a chain;
* `fieldNamesAfter_behind`: a name that is being read takes up the rest of its chain, whatever is
  behind it;
* `fieldNames_chains`: so the names of a row of maximal chains are those of its longer chains;
* `fieldNames_of_isCut`: the names of any text.
-/

namespace Criteria

namespace FieldName

/-! ### Runs -/

/-- Letters and digits, with what stands behind them and is neither. -/
structure Run where
  chars : List Char
  gap : List Char
  chars_ne_nil : chars ≠ []
  isAlphanum_of_mem : ∀ c ∈ chars, c.isAlphanum = true
  not_isAlphanum_of_mem : ∀ c ∈ gap, c.isAlphanum = false

/-- The text of runs in a row. -/
def runsText (runs : List Run) : List Char := runs.flatMap fun r => r.chars ++ r.gap

/-- A text is what stands in front of its runs, and the runs with their gaps. The runs are maximal:
no gap between two of them is empty. -/
structure IsCut (text lead : List Char) (runs : List Run) : Prop where
  text_eq : text = lead ++ runsText runs
  not_isAlphanum_of_mem : ∀ c ∈ lead, c.isAlphanum = false
  isChain : runs.IsChain fun r _ => r.gap ≠ []

/-- Whether a run is linked to the next one. -/
def Run.isLinked (r s : Run) : Bool :=
  r.chars.any Char.isAlpha && r.gap == ['.'] && startsWithLetter s.chars

/-- The text from behind a run to the end of the last run of those that follow it. -/
def Run.behind : Run → List Run → List Char
  | _, [] => []
  | r, s :: others => r.gap ++ s.chars ++ s.behind others

/-- The name of a chain: the text from the first letter of its first run to the end of its last. -/
def chainName : List Run → List Char
  | [] => []
  | r :: others => r.chars.dropWhile (fun c => !c.isAlpha) ++ r.behind others

variable {c : Char} {text lead rest chars gap reversed : List Char} {linked : Bool} {r s : Run}
  {runs others : List Run} {chains : List (List Run)}

theorem runsText_cons : runsText (r :: runs) = r.chars ++ (r.gap ++ runsText runs) := by
  rw [runsText, List.flatMap_cons, List.append_assoc]
  rfl

theorem isLinked_iff : r.isLinked s = true ↔
    r.chars.any Char.isAlpha = true ∧ r.gap = ['.'] ∧ startsWithLetter s.chars = true := by
  rw [Run.isLinked, Bool.and_eq_true_iff, Bool.and_eq_true_iff, beq_iff_eq, and_assoc]

theorem any_isAlpha_of_startsWithLetter (h : startsWithLetter chars = true) :
    chars.any Char.isAlpha = true := by
  cases chars with
  | nil => cases h
  | cons c chars => exact List.any_eq_true.2 ⟨c, List.mem_cons_self, h⟩

/-- Any text can be cut. -/
theorem exists_isCut (text : List Char) : ∃ lead runs, IsCut text lead runs := by
  induction text with
  | nil => exact ⟨[], [], rfl, by simp, by simp⟩
  | cons c text ih =>
    obtain ⟨lead, runs, rfl, hlead, hruns⟩ := ih
    cases hc : c.isAlphanum with
    | false => exact ⟨c :: lead, runs, rfl, List.forall_mem_cons.2 ⟨hc, hlead⟩, hruns⟩
    | true =>
      have hsingle : ∀ d ∈ [c], d.isAlphanum = true := List.forall_mem_singleton.2 hc
      obtain _ | ⟨d, lead⟩ := lead
      · obtain _ | ⟨r, runs⟩ := runs
        · exact ⟨[], [⟨[c], [], by simp, hsingle, hlead⟩], rfl, hlead, by simp⟩
        · -- the character belongs to the run behind it
          let longer : Run := ⟨c :: r.chars, r.gap, by simp,
            List.forall_mem_cons.2 ⟨hc, r.isAlphanum_of_mem⟩, r.not_isAlphanum_of_mem⟩
          refine ⟨[], longer :: runs, ?_, hlead, ?_⟩
          · rw [runsText_cons, runsText_cons]
            rfl
          · rw [List.isChain_cons] at hruns ⊢
            exact hruns
      · let single : Run := ⟨[c], d :: lead, by simp, hsingle, hlead⟩
        refine ⟨[], single :: runs, ?_, by simp, ?_⟩
        · rw [runsText_cons]
          rfl
        · rw [List.isChain_cons]
          exact ⟨fun _ _ => List.cons_ne_nil d lead, hruns⟩

/-! ### Reading runs -/

theorem startsWithLetter_chars : startsWithLetter (r.chars ++ rest) = startsWithLetter r.chars := by
  cases h : r.chars with
  | nil => exact absurd h r.chars_ne_nil
  | cons c chars => rfl

/-- What is neither a letter nor a digit is in no name by itself. -/
theorem fieldNames_gap_append (h : ∀ c ∈ gap, c.isAlphanum = false) :
    fieldNames (gap ++ rest) = fieldNames rest := by
  induction gap with
  | nil => rfl
  | cons c gap ih =>
    obtain ⟨hc, hgap⟩ := List.forall_mem_cons.1 h
    rw [List.cons_append, fieldNames_cons_of_not_isAlphanum hc, ih hgap]

/-- The first letter of a run begins a name. -/
theorem fieldNames_chars_append (h : ∀ c ∈ chars, c.isAlphanum = true) :
    fieldNames (chars ++ rest) =
      fieldNamesAfter (chars.dropWhile fun c => !c.isAlpha).reverse false rest := by
  induction chars with
  | nil => rfl
  | cons c chars ih =>
    obtain ⟨-, hchars⟩ := List.forall_mem_cons.1 h
    cases hc : c.isAlpha with
    | true =>
      rw [List.cons_append, fieldNames_cons_of_isAlpha hc,
        fieldNamesAfter_of_isAlphanum (List.cons_ne_nil c []) hchars,
        List.dropWhile_cons_of_neg (by simp [hc]), List.reverse_cons]
    | false =>
      have hskip : fieldNames (c :: (chars ++ rest)) = fieldNames (chars ++ rest) :=
        if_neg (by simp [hc])
      rw [List.cons_append, hskip, ih hchars, List.dropWhile_cons_of_pos (by simp [hc])]

/-- A letter right behind the point of a gap begins the next run, and the runs are linked. -/
theorem exists_isLinked_of_point (hletter : r.chars.any Char.isAlpha = true)
    (hgap : r.gap = '.' :: gap) (hstarts : startsWithLetter (gap ++ runsText runs) = true) :
    ∃ s ∈ runs.head?, r.isLinked s = true := by
  obtain _ | ⟨d, gap⟩ := gap
  · obtain _ | ⟨s, runs⟩ := runs
    · cases hstarts
    · rw [List.nil_append, runsText_cons, startsWithLetter_chars] at hstarts
      exact ⟨s, rfl, isLinked_iff.2 ⟨hletter, hgap, hstarts⟩⟩
  · have hd : d.isAlpha = true := hstarts
    have hnone := r.not_isAlphanum_of_mem d (by simp [hgap])
    simp [Char.isAlphanum, hd] at hnone

/-- A name ends behind a run that has a letter and is not linked to the next one. -/
theorem fieldNamesAfter_gap (hreversed : reversed ≠ []) (hletter : r.chars.any Char.isAlpha = true)
    (hruns : (r :: runs).IsChain fun r _ => r.gap ≠ [])
    (hnext : ∀ s ∈ runs.head?, r.isLinked s = false) :
    fieldNamesAfter reversed linked (r.gap ++ runsText runs) =
      closeChain reversed linked (fieldNames (runsText runs)) := by
  cases hgap : r.gap with
  | nil =>
    -- only the last run has no gap
    obtain _ | ⟨s, runs⟩ := runs
    · rfl
    · exact absurd hgap ((List.isChain_cons.1 hruns).1 s rfl)
  | cons c gap =>
    have hmem := r.not_isAlphanum_of_mem
    rw [hgap] at hmem
    obtain ⟨hc, hothers⟩ := List.forall_mem_cons.1 hmem
    have hpoint : ¬(c == '.' && startsWithLetter (gap ++ runsText runs)) = true := by
      intro h
      obtain ⟨hpoint, hstarts⟩ := Bool.and_eq_true_iff.1 h
      obtain rfl := eq_of_beq hpoint
      obtain ⟨s, hs, hlinked⟩ := exists_isLinked_of_point hletter hgap hstarts
      rw [hnext s hs] at hlinked
      cases hlinked
    rw [List.cons_append, fieldNamesAfter, if_neg (by simpa using hreversed), if_neg (by simp [hc]),
      if_neg hpoint]
    exact congrArg (closeChain reversed linked) (fieldNames_gap_append hothers)

/-- A name that has been read to the end of a run takes up the rest of its chain, and ends there. -/
theorem fieldNamesAfter_behind (hreversed : reversed ≠ [])
    (hletter : r.chars.any Char.isAlpha = true)
    (hruns : (r :: (others ++ runs)).IsChain fun r _ => r.gap ≠ [])
    (hchain : (r :: others).IsChain fun r s => r.isLinked s = true)
    (hnext : ∀ last ∈ (r :: others).getLast?, ∀ s ∈ runs.head?, last.isLinked s = false) :
    fieldNamesAfter reversed linked (r.gap ++ runsText (others ++ runs)) =
      closeChain ((r.behind others).reverse ++ reversed) (linked || !others.isEmpty)
        (fieldNames (runsText runs)) := by
  -- what has been read grows by a point and a run; from the second run on every run has a letter
  induction others generalizing r reversed linked with
  | nil =>
    rw [List.nil_append] at hruns ⊢
    rw [fieldNamesAfter_gap hreversed hletter hruns (hnext r rfl)]
    simp [Run.behind]
  | cons s others ih =>
    obtain ⟨hlinked, hothers⟩ := List.isChain_cons_cons.1 hchain
    obtain ⟨-, hpoint, hstarts⟩ := isLinked_iff.1 hlinked
    have hlonger : s.chars.reverse ++ '.' :: reversed ≠ [] := by simp
    have hread := @ih _ true s hlonger (any_isAlpha_of_startsWithLetter hstarts) hruns.tail hothers
      hnext
    rw [List.cons_append, runsText_cons, hpoint, List.singleton_append,
      fieldNamesAfter_point hreversed ⟨hstarts, s.isAlphanum_of_mem⟩, hread, Run.behind, hpoint]
    simp

/-- A chain gives its name if it has two runs or more, and then the names behind it are read. -/
theorem fieldNames_chain (hruns : (r :: (others ++ runs)).IsChain fun r _ => r.gap ≠ [])
    (hchain : (r :: others).IsChain fun r s => r.isLinked s = true)
    (hnext : ∀ last ∈ (r :: others).getLast?, ∀ s ∈ runs.head?, last.isLinked s = false) :
    fieldNames (runsText (r :: (others ++ runs))) =
      closeChain (chainName (r :: others)).reverse (!others.isEmpty)
        (fieldNames (runsText runs)) := by
  rw [runsText_cons, fieldNames_chars_append r.isAlphanum_of_mem]
  cases hletter : r.chars.any Char.isAlpha with
  | true =>
    have hne : r.chars.dropWhile (fun c => !c.isAlpha) ≠ [] := by
      rw [Ne, List.dropWhile_eq_nil_iff]
      simpa using hletter
    rw [fieldNamesAfter_behind (by simpa using hne) hletter hruns hchain hnext, chainName,
      List.reverse_append, Bool.false_or]
  | false =>
    have hdigits : r.chars.dropWhile (fun c => !c.isAlpha) = [] := by
      rw [List.dropWhile_eq_nil_iff]
      simpa using hletter
    obtain _ | ⟨s, others⟩ := others
    · rw [hdigits]
      exact fieldNames_gap_append r.not_isAlphanum_of_mem
    · obtain ⟨hlinked, -⟩ := List.isChain_cons_cons.1 hchain
      rw [(isLinked_iff.1 hlinked).1] at hletter
      cases hletter

/-- The names of maximal chains in a row are those of the chains that have two runs or more. -/
theorem fieldNames_chains (hruns : chains.flatten.IsChain fun r _ => r.gap ≠ [])
    (hne : [] ∉ chains) (hchains : ∀ chain ∈ chains, chain.IsChain fun r s => r.isLinked s = true)
    (hmaximal : chains.IsChain fun chain next =>
      ∃ hchain hnext, (chain.getLast hchain).isLinked (next.head hnext) = false) :
    fieldNames (runsText chains.flatten) =
      (chains.filter fun chain => 2 ≤ chain.length).map chainName := by
  induction chains with
  | nil => rfl
  | cons chain chains ih =>
    obtain _ | ⟨r, others⟩ := chain
    · exact absurd List.mem_cons_self hne
    obtain ⟨hchain, hothers⟩ := List.forall_mem_cons.1 hchains
    obtain ⟨hlast, hmaximal⟩ := List.isChain_cons.1 hmaximal
    replace hne : [] ∉ chains := fun hmem => hne (List.mem_cons_of_mem _ hmem)
    rw [List.flatten_cons, List.cons_append] at hruns ⊢
    have hnext : ∀ last ∈ (r :: others).getLast?, ∀ s ∈ chains.flatten.head?,
        last.isLinked s = false := by
      intro last hmem s hs
      obtain _ | ⟨_ | ⟨first, next⟩, chains⟩ := chains
      · cases hs
      · exact absurd List.mem_cons_self hne
      · -- the chains are maximal
        obtain ⟨hchain, hfirst, hunlinked⟩ := hlast _ rfl
        cases hs
        rw [List.getLast?_eq_some_getLast hchain] at hmem
        cases hmem
        exact hunlinked
    have hrest : chains.flatten.IsChain fun r _ => r.gap ≠ [] := by
      rw [← List.cons_append] at hruns
      exact hruns.right_of_append
    rw [fieldNames_chain hruns hchain hnext, ih hrest hne hothers hmaximal]
    obtain _ | ⟨s, others⟩ := others
    · rfl
    · simp [closeChain]

/-- **The names of fields are the maximal dotted names.** Any text can be cut into its maximal runs
of letters and digits, and however it is cut, its names are those of its maximal chains of at least
two linked runs, from left to right. -/
theorem fieldNames_of_isCut (text : List Char) :
    (∃ lead runs, IsCut text lead runs) ∧ ∀ lead runs, IsCut text lead runs →
      fieldNames text =
        ((runs.splitBy Run.isLinked).filter fun chain => 2 ≤ chain.length).map chainName := by
  refine ⟨exists_isCut text, ?_⟩
  rintro lead runs ⟨rfl, hlead, hruns⟩
  have hflatten := List.flatten_splitBy Run.isLinked runs
  rw [← hflatten] at hruns
  have hnames := fieldNames_chains hruns (List.nil_notMem_splitBy _ _)
    (fun chain => List.isChain_of_mem_splitBy) (List.isChain_getLast_head_splitBy _ _)
  rw [hflatten] at hnames
  rw [fieldNames_gap_append hlead, hnames]

/-- A segment that begins with a digit ends a chain and begins the next one, whose name leaves the
digit out. -/
theorem fieldNames_of_isCut_digit :
    let runs : List Run := [⟨['a'], ['.'], by simp, by simp, by simp⟩,
      ⟨['b'], ['.'], by simp, by simp, by simp⟩, ⟨['2', 'c'], ['.'], by simp, by simp, by simp⟩,
      ⟨['d'], [')'], by simp, by simp, by simp⟩]
    IsCut "(a.b.2c.d)".toList ['('] runs ∧
      fieldNames "(a.b.2c.d)".toList = ["a.b".toList, "c.d".toList] := by
  intro runs
  have hcut : IsCut "(a.b.2c.d)".toList ['('] runs := ⟨rfl, by simp, by simp [runs]⟩
  exact ⟨hcut, (fieldNames_of_isCut _).2 _ runs hcut⟩

end FieldName

end Criteria
