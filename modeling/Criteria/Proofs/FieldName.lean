import Criteria.Evaluate
import Criteria.FieldName
import Criteria.Proofs.Pieces
import Criteria.Proofs.Token
import Criteria.Proofs.Value.Alike

/-!
# Names of fields and what an evaluation looks up

The names of fields are read off the text of an expression, and the machine looks up the paths of its
tokens. The two ways to cut the text fit together: a character that ends a piece ends every chain as
well, so no chain goes beyond a piece.

* `IsDottedName`: the paths that are a chain by themselves;
* `fieldNames_append`: a text can be cut in front of a character that is in no name;
* `sublist_fieldNames`: if all paths are dotted names, they are among the names, in their order and as
  often as they occur;
* `related_evaluate`: an evaluation depends on the data through what its paths lead to;
* `evaluate_of_fieldNames`: so it depends on the data at these names only. What the names lead to in two
  data may be one and the same, or alike, with a counterpart for each array and object that holds not a
  number; the content alone is not enough (`evaluate_ne_of_content`).
-/

namespace Criteria

open Outcome

variable {c : Char} {text front back rest name piece reversed segment : List Char} {linked : Bool}
  {segments names : List (List Char)}

/-! ### Chains of segments -/

/-- A letter with letters and digits behind it. -/
def IsSegment (segment : List Char) : Prop :=
  startsWithLetter segment = true ∧ ∀ c ∈ segment, c.isAlphanum = true

/-- Two or more segments with a point between each two. -/
def IsDottedName (name : List Char) : Prop :=
  ∃ segments : List (List Char), 2 ≤ segments.length ∧ (∀ segment ∈ segments, IsSegment segment) ∧
    name = ['.'].intercalate segments

/-- A letter begins a chain. -/
theorem fieldNames_cons_of_isAlpha (h : c.isAlpha = true) :
    fieldNames (c :: rest) = fieldNamesAfter [c] false rest := if_pos h

theorem fieldNames_cons_of_not_isAlphanum (h : c.isAlphanum = false) :
    fieldNames (c :: rest) = fieldNames rest :=
  if_neg (Bool.eq_false_iff.1 (Bool.or_eq_false_iff.1 h).1)

theorem fieldNamesAfter_of_isAlphanum (hreversed : reversed ≠ [])
    (h : ∀ c ∈ segment, c.isAlphanum = true) :
    fieldNamesAfter reversed linked (segment ++ rest) =
      fieldNamesAfter (segment.reverse ++ reversed) linked rest := by
  induction segment generalizing reversed with
  | nil => rfl
  | cons c segment ih =>
    obtain ⟨hc, hsegment⟩ := List.forall_mem_cons.1 h
    rw [List.cons_append, fieldNamesAfter, if_neg (by simpa using hreversed), if_pos hc,
      ih (List.cons_ne_nil c reversed) hsegment, List.reverse_cons, List.append_assoc]
    rfl

/-- A point with a segment behind it continues a chain. -/
theorem fieldNamesAfter_point (hreversed : reversed ≠ []) (h : IsSegment segment) :
    fieldNamesAfter reversed linked ('.' :: (segment ++ rest)) =
      fieldNamesAfter (segment.reverse ++ '.' :: reversed) true rest := by
  have hletter : startsWithLetter (segment ++ rest) = true := by
    cases segment with
    | nil => cases h.1
    | cons c segment => exact h.1
  rw [fieldNamesAfter, if_neg (by simpa using hreversed), if_neg (by decide), hletter,
    if_pos (by decide), fieldNamesAfter_of_isAlphanum (List.cons_ne_nil _ _) h.2]

/-- What a chain is after more segments. -/
theorem fieldNamesAfter_segments (hreversed : reversed ≠ []) (hlinked : linked = true ∨ segments ≠ [])
    (h : ∀ segment ∈ segments, IsSegment segment) :
    fieldNamesAfter reversed linked (segments.flatMap ('.' :: ·)) =
      [reversed.reverse ++ segments.flatMap ('.' :: ·)] := by
  induction segments generalizing reversed linked with
  | nil =>
    obtain rfl : linked = true := hlinked.resolve_right (by simp)
    simp [fieldNamesAfter, closeChain]
  | cons segment segments ih =>
    obtain ⟨hsegment, hsegments⟩ := List.forall_mem_cons.1 h
    rw [List.flatMap_cons, List.cons_append, fieldNamesAfter_point hreversed hsegment,
      ih (by simp) (.inl rfl) hsegments]
    simp

theorem intercalate_point (segment : List Char) (segments : List (List Char)) :
    ['.'].intercalate (segment :: segments) = segment ++ segments.flatMap ('.' :: ·) := by
  induction segments generalizing segment with
  | nil => simp [List.intercalate]
  | cons next segments ih =>
    rw [List.intercalate_cons_cons, ih next, List.flatMap_cons]
    simp

/-- A dotted name is the only name in itself. -/
theorem fieldNames_of_isDottedName (h : IsDottedName name) : fieldNames name = [name] := by
  obtain ⟨segments, hlength, hsegments, rfl⟩ := h
  obtain _ | ⟨first, _ | ⟨second, segments⟩⟩ := segments
  · cases hlength
  · cases Nat.lt_of_succ_lt_succ hlength
  · obtain ⟨hfirst, hothers⟩ := List.forall_mem_cons.1 hsegments
    rw [intercalate_point]
    obtain _ | ⟨c, first⟩ := first
    · cases hfirst.1
    · have hletter : c.isAlpha = true := hfirst.1
      have hbegun : ∀ d ∈ first, d.isAlphanum = true := fun d hd =>
        hfirst.2 d (List.mem_cons_of_mem c hd)
      rw [List.cons_append, fieldNames_cons_of_isAlpha hletter,
        fieldNamesAfter_of_isAlphanum (List.cons_ne_nil c []) hbegun,
        fieldNamesAfter_segments (by simp) (.inr (by simp)) hothers]
      simp

/-! ### Cutting where no name goes on -/

/-- A text that is empty or begins with a character that is in no name. -/
def EndsNames : List Char → Prop
  | [] => True
  | c :: _ => c.isAlphanum = false ∧ c ≠ '.'

theorem startsWithLetter_append (h : EndsNames back) :
    startsWithLetter (front ++ back) = startsWithLetter front := by
  cases front with
  | cons c front => rfl
  | nil =>
    cases back with
    | nil => rfl
    | cons c rest => exact (Bool.or_eq_false_iff.1 h.1).1

theorem closeChain_append (others : List (List Char)) :
    closeChain reversed linked names ++ others = closeChain reversed linked (names ++ others) := by
  cases linked <;> rfl

/-- A chain that has been read so far ends where names end. -/
theorem fieldNamesAfter_of_endsNames (h : EndsNames back) (hlinked : reversed = [] → linked = false) :
    fieldNamesAfter reversed linked back = closeChain reversed linked (fieldNames back) := by
  obtain rfl | hreversed := eq_or_ne reversed []
  · obtain rfl := hlinked rfl
    rfl
  cases back with
  | nil => rfl
  | cons c rest =>
    rw [fieldNamesAfter, if_neg (by simpa using hreversed), if_neg (by simp [h.1]),
      if_neg (by simp [h.2]), fieldNames_cons_of_not_isAlphanum h.1]
    rfl

theorem fieldNamesAfter_append (h : EndsNames back) (hlinked : reversed = [] → linked = false) :
    fieldNamesAfter reversed linked (front ++ back) =
      fieldNamesAfter reversed linked front ++ fieldNames back := by
  induction front generalizing reversed linked with
  | nil =>
    rw [List.nil_append, fieldNamesAfter_of_endsNames h hlinked, fieldNamesAfter, closeChain_append,
      List.nil_append]
  | cons c front ih =>
    rw [List.cons_append, fieldNamesAfter, fieldNamesAfter, startsWithLetter_append h]
    split
    · split <;> exact ih (by simp)
    split
    · exact ih (by simp)
    split
    · exact ih (by simp)
    · rw [ih (by simp), closeChain_append]

/-- A text can be cut where names end. -/
theorem fieldNames_append (h : EndsNames back) :
    fieldNames (front ++ back) = fieldNames front ++ fieldNames back :=
  fieldNamesAfter_append h fun _ => rfl

/-! ### Pieces and names -/

theorem range_of_isAlphanum (h : c.isAlphanum = true) :
    (65 ≤ c.toNat ∧ c.toNat ≤ 90) ∨ (97 ≤ c.toNat ∧ c.toNat ≤ 122) ∨
      (48 ≤ c.toNat ∧ c.toNat ≤ 57) := by
  rcases Bool.or_eq_true_iff.1 h with hletter | hdigit
  · rcases Bool.or_eq_true_iff.1 hletter with hupper | hlower
    · exact .inl (of_decide_eq_true hupper)
    · obtain ⟨hfirst, hlast⟩ := Bool.and_eq_true_iff.1 hlower
      exact .inr (.inl ⟨of_decide_eq_true hfirst, of_decide_eq_true hlast⟩)
  · obtain ⟨hfirst, hlast⟩ := Bool.and_eq_true_iff.1 hdigit
    exact .inr (.inr ⟨of_decide_eq_true hfirst, of_decide_eq_true hlast⟩)

theorem isBlank_of_isAlphanum (h : c.isAlphanum = true) : isBlank c = false := by
  have hrange := range_of_isAlphanum h
  simp only [isBlank, Bool.or_eq_false_iff, Bool.and_eq_false_iff, decide_eq_false_iff_not,
    beq_eq_false_iff_ne]
  omega

/-- A character that ends a piece is in no name. -/
theorem not_isAlphanum_of_endsPiece (h : endsPiece c rest = true) :
    c.isAlphanum = false ∧ c ≠ '.' := by
  rcases endsPiece_iff.1 h with rfl | rfl | ⟨rfl, -⟩ | hblank
  · decide
  · decide
  · decide
  · constructor
    · by_contra halphanum
      rw [isBlank_of_isAlphanum (by simpa using halphanum)] at hblank
      cases hblank
    · rintro rfl
      cases hblank

theorem endsNames_of_breaks (h : Breaks back) : EndsNames back := by
  cases back with
  | nil => trivial
  | cons c rest => exact not_isAlphanum_of_endsPiece h

/-- Whether a piece is a path into the data. -/
def isPath (piece : List Char) : Bool :=
  match Token.Item.ofPiece piece with
  | .ok (.path _) => true
  | _ => false

theorem isPath_of_standsAlone (h : standsAlone c rest = true) : isPath [c] = false := by
  rcases standsAlone_iff.1 h with rfl | rfl | ⟨rfl, -⟩ <;> rfl

/-- If all paths are dotted names, they are among the names of the text, in their order. -/
theorem sublist_fieldNames (h : ∀ piece ∈ pieces text, isPath piece = true → IsDottedName piece) :
    ((pieces text).filter isPath).Sublist (fieldNames text) := by
  induction cut text with
  | nil => exact List.Sublist.refl _
  | @ending c rest hc _ ih =>
    rw [fieldNames_cons_of_not_isAlphanum (not_isAlphanum_of_endsPiece hc).1]
    rcases Bool.or_eq_true_iff.1 hc with halone | hblank
    · rw [pieces_cons_of_standsAlone halone] at h ⊢
      rw [List.filter_cons_of_neg (by simp [isPath_of_standsAlone halone])]
      exact ih fun piece hpiece => h piece (List.mem_cons_of_mem _ hpiece)
    · rw [pieces_cons_of_isBlank hblank] at h ⊢
      exact ih h
  | @word word rest hne hword hbreaks _ ih =>
    rw [pieces_word_append hword hne hbreaks] at h ⊢
    obtain ⟨hdotted, hrest⟩ := List.forall_mem_cons.1 h
    rw [fieldNames_append (endsNames_of_breaks hbreaks)]
    cases hpath : isPath word with
    | true =>
      rw [List.filter_cons_of_pos hpath, fieldNames_of_isDottedName (hdotted hpath)]
      exact (ih hrest).cons_cons word
    | false =>
      rw [List.filter_cons_of_neg (by simp [hpath])]
      exact (ih hrest).trans (List.sublist_append_right _ _)

/-! ### Paths of tokens -/

/-- The path that a token is. -/
def Token.path? (token : Token) : Option (List Char) :=
  match token.item with
  | .path path => some path.toList
  | _ => none

/-- The paths among tokens. -/
def Token.paths (tokens : List Token) : List (List Char) := tokens.filterMap Token.path?

theorem path?_of_classify {index : Int} {token : Token}
    (h : Token.classify piece index = .ok token) :
    token.path? = if isPath piece then some piece else none := by
  obtain ⟨item, hitem, htoken⟩ := bind_eq_ok.1 h
  cases htoken
  unfold isPath
  rw [hitem]
  cases item with
  | path path =>
    rw [Token.eq_of_ofPiece_path hitem]
    exact congrArg some String.toList_ofList
  | _ => rfl

theorem paths_of_classifyFrom {start : Nat} {found : List (List Char)} {tokens : List Token}
    (h : Token.classifyFrom start found = .ok tokens) : Token.paths tokens = found.filter isPath := by
  induction found generalizing start tokens with
  | nil =>
    cases h
    rfl
  | cons piece found ih =>
    obtain ⟨token, htoken, hbind⟩ := bind_eq_ok.1 h
    obtain ⟨others, hothers, hcons⟩ := bind_eq_ok.1 hbind
    cases hcons
    have htail : others.filterMap Token.path? = found.filter isPath := ih hothers
    rw [Token.paths, List.filterMap_cons, path?_of_classify htoken, htail]
    cases hpath : isPath piece <;> simp [hpath]

/-! ### Outcomes -/

/-- Where the paths of an expression lead to what is related, the expression has outcomes that are, if
operators respect the relation and literals are related to themselves. -/
theorem related_evaluate {R : Value → Value → Prop} (hR : IsRespected R)
    (hliteral : ∀ value : Value, value.kind ≠ .array ∧ value.kind ≠ .object → R value value)
    {nesting : Nat} {limits : Limits} {data other : Value} {expression : String}
    (hpaths : ∀ tokens, Token.classifyFrom 0 (pieces expression.toList) = .ok tokens →
      ∀ path ∈ Token.paths tokens, Related R (data.resolve path (some limits.maxPathDepth))
        (other.resolve path (some limits.maxPathDepth))) :
    Related R (evaluate nesting limits data expression) (evaluate nesting limits other expression) := by
  unfold evaluate
  cases htokenize : tokenize limits expression with
  | error fault => exact .error fault
  | ok tokens =>
    have hclassify := classifyFrom_of_tokenize htokenize
    refine corresponds_evaluateTokens hR ⟨rfl, rfl⟩ fun token htoken operand hoperand => ?_
    have hitem := Token.item_of_operand? hoperand
    cases operand with
    | literal value =>
      obtain ⟨piece, -, index, hpiece⟩ := Token.exists_piece_of_classifyFrom hclassify token htoken
      have hread := Token.ofPiece_of_classify hpiece
      rw [hitem] at hread
      exact .ok (hliteral value (Literal.kind_of_read? (Token.read?_of_ofPiece hread)))
    | path path =>
      have hpath : token.path? = some path.toList := by
        rw [Token.path?, hitem]
        rfl
      exact hpaths tokens hclassify _ (List.mem_filterMap.2 ⟨token, htoken, hpath⟩)

/-- **The names of fields cover what an evaluation looks up.** If all paths of an expression are dotted
names, they are among its names of fields, in their order and as often as they occur. Where the names
lead to the same in two data, the expression has the same outcome against both; where they lead to
what is alike, with one counterpart for each array and object that holds not a number, it has outcomes
that are alike. -/
theorem evaluate_of_fieldNames (expression : String)
    (hnames : ∀ tokens, Token.classifyFrom 0 (pieces expression.toList) = .ok tokens →
      ∀ path ∈ Token.paths tokens, IsDottedName path) :
    (∀ tokens, Token.classifyFrom 0 (pieces expression.toList) = .ok tokens →
      (Token.paths tokens).Sublist (fieldNames expression.toList)) ∧
    (∀ (nesting : Nat) (limits : Limits) (data other : Value),
      (∀ name ∈ fieldNames expression.toList, data.resolve name (some limits.maxPathDepth) =
        other.resolve name (some limits.maxPathDepth)) →
      evaluate nesting limits data expression = evaluate nesting limits other expression) ∧
    ∀ (one : Value → Value → Prop), Relator.BiUnique one →
      ∀ (nesting : Nat) (limits : Limits) (data other : Value),
        (∀ name ∈ fieldNames expression.toList,
          Related (Value.Alike one) (data.resolve name (some limits.maxPathDepth))
            (other.resolve name (some limits.maxPathDepth))) →
        Related (Value.Alike one) (evaluate nesting limits data expression)
          (evaluate nesting limits other expression) := by
  have hcovers : ∀ tokens, Token.classifyFrom 0 (pieces expression.toList) = .ok tokens →
      (Token.paths tokens).Sublist (fieldNames expression.toList) := by
    intro tokens htokens
    have hdotted := hnames tokens htokens
    rw [paths_of_classifyFrom htokens] at hdotted ⊢
    exact sublist_fieldNames fun piece hpiece hpath =>
      hdotted piece (List.mem_filter.2 ⟨hpiece, hpath⟩)
  refine ⟨hcovers, fun nesting limits data other hsame => ?_,
    fun one hone nesting limits data other halike => ?_⟩
  · have hrelated : Related Eq (evaluate nesting limits data expression)
        (evaluate nesting limits other expression) :=
      related_evaluate isRespected_eq (fun _ _ => rfl) fun tokens htokens path hpath =>
        .of_eq (hsame path ((hcovers tokens htokens).subset hpath))
    exact hrelated.eq_or.resolve_right fun ⟨_, hstops, _⟩ => hstops
  · exact related_evaluate (Value.isRespected_alike hone) (fun _ => Value.Alike.of_kind)
      fun tokens htokens path hpath => halike path ((hcovers tokens htokens).subset hpath)

/-- Letters with a point between each two are a dotted name. -/
theorem isDottedName_letters {letters : List Char} (hlength : 2 ≤ letters.length)
    (h : letters.all Char.isAlpha = true) :
    IsDottedName (['.'].intercalate (letters.map fun c => [c])) := by
  refine ⟨letters.map fun c => [c], by rwa [List.length_map], ?_, rfl⟩
  refine List.forall_mem_map.2 fun c hc => ?_
  have hletter := List.all_eq_true.1 h c hc
  exact ⟨hletter, List.forall_mem_singleton.2 (Bool.or_eq_true_iff.2 (.inl hletter))⟩

/-- `x.y == (z.w)` holds where both names lead to one array that holds not a number, through objects or
as names by themselves. -/
theorem evaluate_of_fieldNames_flat :
    let items : Value := .array 5 [.number (.double .nan)]
    let copy : Value := .array 9 [.number (.double .nan)]
    let nested : Value := .object 0 [(Text.ofString "x", .object 1 [(Text.ofString "y", items)]),
      (Text.ofString "z", .object 2 [(Text.ofString "w", items)])]
    let flat : Value := .object 0 [(Text.ofString "z.w", copy), (Text.ofString "x.y", copy),
      (Text.ofString "x", .null)]
    (∀ tokens, Token.classifyFrom 0 (pieces "x.y == (z.w)".toList) = .ok tokens →
      ∀ path ∈ Token.paths tokens, IsDottedName path) ∧
    (∀ name ∈ fieldNames "x.y == (z.w)".toList,
      nested.resolve name (some 16) = .ok items ∧ flat.resolve name (some 16) = .ok copy) ∧
    (∃ tokens, tokenize .standard "x.y == (z.w)" = .ok tokens ∧
      (Token.paths tokens).Sublist ["x.y".toList, "z.w".toList]) ∧
    evaluate 999 .standard nested "x.y == (z.w)" = .ok (.bool true) ∧
      evaluate 999 .standard flat "x.y == (z.w)" = .ok (.bool true) := by
  intro items copy nested flat
  have hnames : ∀ tokens, Token.classifyFrom 0 (pieces "x.y == (z.w)".toList) = .ok tokens →
      ∀ path ∈ Token.paths tokens, IsDottedName path := by
    intro tokens htokens
    have hpaths : Token.paths tokens = ["x.y".toList, "z.w".toList] := paths_of_classifyFrom htokens
    rw [hpaths]
    refine List.forall_mem_cons.2 ⟨@isDottedName_letters ['x', 'y'] (by decide) rfl,
      List.forall_mem_singleton.2 (@isDottedName_letters ['z', 'w'] (by decide) rfl)⟩
  have hfound : fieldNames "x.y == (z.w)".toList = ["x.y".toList, "z.w".toList] := rfl
  have hlookups : ∀ name ∈ fieldNames "x.y == (z.w)".toList,
      nested.resolve name (some 16) = .ok items ∧ flat.resolve name (some 16) = .ok copy := by
    rw [hfound]
    exact List.forall_mem_cons.2 ⟨⟨rfl, rfl⟩, List.forall_mem_singleton.2 ⟨rfl, rfl⟩⟩
  -- the one array and its copy
  have hone : Relator.BiUnique fun a b : Value => a = items ∧ b = copy :=
    ⟨fun _ _ _ h h' => h.1.trans h'.1.symm, fun _ _ _ h h' => h.2.trans h'.2.symm⟩
  have halike : Value.Alike (fun a b => a = items ∧ b = copy) items copy :=
    .singleton (.inr ⟨rfl, rfl⟩) (.number _)
  have hnested : evaluate 999 .standard nested "x.y == (z.w)" = .ok (.bool true) := by
    decide +kernel
  obtain ⟨tokens, htokens⟩ :
      ∃ tokens, Token.classifyFrom 0 (pieces "x.y == (z.w)".toList) = .ok tokens := ⟨_, rfl⟩
  have htokenize : tokenize .standard "x.y == (z.w)" = .ok tokens :=
    (tokenize_of_admits ⟨rfl, rfl⟩).trans htokens
  obtain ⟨hcovers, -, hrelated⟩ := evaluate_of_fieldNames "x.y == (z.w)" hnames
  have hcovered := hcovers tokens htokens
  rw [hfound] at hcovered
  have houtcomes := hrelated _ hone 999 .standard nested flat fun name hname => by
    obtain ⟨hitems, hcopy⟩ := hlookups name hname
    rw [show Limits.standard.maxPathDepth = 16 from rfl, hitems, hcopy]
    exact .ok halike
  rw [hnested] at houtcomes
  obtain ⟨value, hflat, hvalue⟩ := houtcomes.exists_ok
  cases hvalue
  exact ⟨hnames, hlookups, ⟨tokens, htokenize, hcovered⟩, hnested, hflat⟩

/-- What names lead to may have the same content in two data, and yet `a.b contains a.b.c` holds in one
of them only: where `a.b.c` is the element of `a.b`, and not another array like it. -/
theorem evaluate_ne_of_content :
    let held : Value := .object 1 [(Text.ofString "b",
      .object 2 [(Text.ofString "c", .array 3 [.number (.double .nan)])])]
    let shared : Value := .object 0 [(Text.ofString "a", held)]
    let apart : Value := .object 0 [(Text.ofString "a", held),
      (Text.ofString "a.b.c", .array 4 [.number (.double .nan)])]
    (∀ tokens, Token.classifyFrom 0 (pieces "a.b contains a.b.c".toList) = .ok tokens →
      ∀ path ∈ Token.paths tokens, IsDottedName path) ∧
    (∀ name ∈ fieldNames "a.b contains a.b.c".toList,
      Related (Value.Alike fun _ _ => True) (shared.resolve name (some 16))
        (apart.resolve name (some 16))) ∧
    evaluate 999 .standard shared "a.b contains a.b.c" = .ok (.bool true) ∧
      evaluate 999 .standard apart "a.b contains a.b.c" = .ok (.bool false) := by
  intro held shared apart
  refine ⟨fun tokens htokens => ?_, ?_, by decide +kernel, by decide +kernel⟩
  · have hpaths : Token.paths tokens = ["a.b".toList, "a.b.c".toList] := paths_of_classifyFrom htokens
    rw [hpaths]
    exact List.forall_mem_cons.2 ⟨@isDottedName_letters ['a', 'b'] (by decide) rfl,
      List.forall_mem_singleton.2 (@isDottedName_letters ['a', 'b', 'c'] (by decide) rfl)⟩
  · have hfound : fieldNames "a.b contains a.b.c".toList = ["a.b".toList, "a.b.c".toList] := rfl
    have hitems : Value.Alike (fun _ _ => True) (.array 3 [.number (.double .nan)])
        (.array 4 [.number (.double .nan)]) := .singleton (.inr trivial) (.number _)
    rw [hfound]
    refine List.forall_mem_cons.2 ⟨?_, List.forall_mem_singleton.2 (.ok hitems)⟩
    exact .ok (.refl (fun _ => trivial) _)

end Criteria
