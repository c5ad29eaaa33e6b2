import Criteria.Proofs.Prepared.Simultaneous

/-!
# Conditions that build on later ones

A text may use names of conditions, and these are found in it if they come later in the order of
replacement. If no text uses its own name or one that comes before it, one pass over the names leaves
none of them behind, however long the chains of texts are (`populate_of_isOrdered`).

* `IsOrdered`: no text has a place for its own name or for an earlier one;
* `HasPlaceFrom`: a name stands in what follows the beginning of a text. Where text is put in, its
  first and its last stretch stand between the boundaries of the name, so a place in the result is one
  in what was put in or one that was there before (`HasPlaceFrom.of_substituteFrom`);
* `not_hasPlace_populate`: a name that has been replaced does not come back;
* `expanded`: the conditions with their own texts populated. Replacing these all at once gives the same
  (`populateFrom_expanded`).
-/

namespace Criteria.Conditions

variable {name other replacement text rest word result : List Char} {c : Char} {ready : Bool}
  {condition : List Char × List Char} {conditions earlier later : Conditions}

/-- Distinct names in an order in which no text has a place for its own name or for an earlier one. -/
structure IsOrdered (conditions : Conditions) : Prop extends AreNames conditions where
  own : ∀ condition ∈ conditions, ¬ HasPlace condition.1 condition.2
  earlier : conditions.Pairwise fun first second => ¬ HasPlace first.1 second.2

/-- The conditions with their texts populated. -/
def expanded (conditions : Conditions) : Conditions :=
  conditions.map fun condition => (condition.1, populate conditions condition.2)

/-! ### Places in what follows the beginning of a text -/

/-- A name stands between boundaries in a text, at the beginning of which it may stand only if
`ready`. -/
def HasPlaceFrom (name : List Char) (ready : Bool) (text : List Char) : Prop :=
  ∃ before after, text = before ++ (name ++ after) ∧ mayFollow ready before = true ∧
    closes after = true

theorem hasPlaceFrom_true : HasPlaceFrom name true text ↔ HasPlace name text :=
  ⟨fun ⟨before, after, htext, hready, hcloses⟩ => ⟨before, after, htext, hready, hcloses⟩,
    fun ⟨before, after, h⟩ => ⟨before, after, h.text_eq, h.mayFollow, h.closes⟩⟩

theorem not_hasPlaceFrom_nil (hne : name ≠ []) : ¬ HasPlaceFrom name ready [] := by
  rintro ⟨before, after, htext, -, -⟩
  simp [hne] at htext

theorem hasPlaceFrom_false_cons :
    HasPlaceFrom name false (c :: rest) ↔ HasPlaceFrom name (opens c) rest := by
  constructor
  · rintro ⟨_ | ⟨d, before⟩, after, htext, hready, hcloses⟩
    · cases hready
    · obtain ⟨rfl, rfl⟩ := List.cons.inj htext
      exact ⟨before, after, rfl, hready, hcloses⟩
  · rintro ⟨before, after, rfl, hready, hcloses⟩
    exact ⟨c :: before, after, rfl, hready, hcloses⟩

/-- A place that does not depend on the beginning stays a place behind any text. -/
theorem HasPlaceFrom.append_left (text : List Char) (h : HasPlaceFrom name false rest) :
    HasPlaceFrom name ready (text ++ rest) := by
  obtain ⟨_ | ⟨d, before⟩, after, rfl, hready, hcloses⟩ := h
  · cases hready
  · refine ⟨text ++ d :: before, after, by rw [List.append_assoc], ?_, hcloses⟩
    rw [mayFollow_append]
    exact hready

/-- A place does not reach over the beginning of a boundary. -/
theorem HasPlaceFrom.of_append (hne : name ≠ []) (hname : IsStretch name) (hrest : EndsStretch rest)
    (h : HasPlaceFrom name ready (text ++ rest)) :
    (∃ front back, text = front ++ (name ++ back) ∧ mayFollow ready front = true ∧
      closes (back ++ rest) = true) ∨ HasPlaceFrom name false rest := by
  have hboundary : ∀ more after, more ≠ [] → (∀ d ∈ more, d ∈ name) → rest ≠ more ++ after := by
    rintro (_ | ⟨d, more⟩) after hmore hmem rfl
    · exact hmore rfl
    · have hd := hrest d rfl
      rw [hname d (hmem d List.mem_cons_self)] at hd
      cases hd
  obtain ⟨before, after, htext, hready, hcloses⟩ := h
  rcases List.append_eq_append_iff.1 htext with ⟨_ | ⟨d, more⟩, rfl, hmore⟩ | ⟨more, rfl, hmore⟩
  · exact absurd hmore (hboundary name after hne fun _ hd => hd)
  · right
    rw [mayFollow_append] at hready
    exact ⟨d :: more, after, hmore, hready, hcloses⟩
  · rcases List.append_eq_append_iff.1 hmore with ⟨back, rfl, rfl⟩ | ⟨back, hback, hrest'⟩
    · exact .inl ⟨before, back, rfl, hready, hcloses⟩
    · -- the name ends with the text
      obtain rfl | hne' := eq_or_ne back []
      · left
        refine ⟨before, [], by rw [hback, List.append_nil, List.append_nil], hready, ?_⟩
        rw [List.nil_append, hrest']
        exact hcloses
      · refine absurd hrest' (hboundary back after hne' fun d hd => ?_)
        rw [hback]
        exact List.mem_append_right more hd

/-! ### Replacing one name -/

theorem substituteFrom_false_nil : substituteFrom name replacement false [] = [] := rfl

/-- What replacing a name makes of a stretch. -/
theorem substituteFrom_stretch_append (hne : name ≠ []) (hname : IsStretch name)
    (hword : IsStretch word) (hrest : EndsStretch rest) :
    substituteFrom name replacement ready (word ++ rest) =
      (if ready = true ∧ closes rest = true ∧ word = name then replacement else word) ++
        substituteFrom name replacement false rest := by
  split
  case isTrue h =>
    obtain ⟨rfl, hcloses, rfl⟩ := h
    exact substituteFrom_name hcloses
  case isFalse h =>
    exact substituteFrom_stretch hne hname hword hrest fun hready hcloses hword =>
      h ⟨hready, hcloses, hword⟩

section OneName

variable (hne : name ≠ []) (hname : IsStretch name)

include hne hname

/-- Replacing a name goes on by itself behind a boundary that may end the name. -/
theorem substituteFrom_append_of_closes (hcloses : closes rest = true) :
    substituteFrom name replacement ready (text ++ rest) =
      substituteFrom name replacement ready text ++ substituteFrom name replacement false rest := by
  have hrest := endsStretch_of_closes hcloses
  induction stretches text generalizing ready with
  | @last word hword =>
    have hnil : EndsStretch [] := fun c hc => by cases hc
    have halone : substituteFrom name replacement ready (word ++ []) =
        (if ready = true ∧ closes [] = true ∧ word = name then replacement else word) ++
          substituteFrom name replacement false [] :=
      substituteFrom_stretch_append hne hname hword hnil
    rw [List.append_nil, substituteFrom_false_nil, List.append_nil] at halone
    rw [substituteFrom_stretch_append hne hname hword hrest, halone, hcloses]
    rfl
  | @cons word c text hword hc _ ih =>
    have hends : ∀ others, EndsStretch (c :: others) := fun others d hd => by
      cases hd
      exact hc
    rw [List.append_assoc, List.cons_append, substituteFrom_stretch_append hne hname hword (hends _),
      substituteFrom_stretch_append hne hname hword (hends _), substituteFrom_false_cons,
      substituteFrom_false_cons, ih, List.append_assoc]
    rfl

variable (hne' : other ≠ []) (hother : IsStretch other)

include hne' hother

theorem HasPlaceFrom.of_substituteFrom_stretch (hword : IsStretch word) (hrest : EndsStretch rest)
    (hnext : HasPlaceFrom other false (substituteFrom name replacement false rest) →
      HasPlace other replacement ∨ (other ≠ name ∧ HasPlaceFrom other false rest))
    (h : HasPlaceFrom other ready (substituteFrom name replacement ready (word ++ rest))) :
    HasPlace other replacement ∨ (other ≠ name ∧ HasPlaceFrom other ready (word ++ rest)) := by
  have hhead : (substituteFrom name replacement false rest).head? = rest.head? :=
    head?_substituteFrom
  have hends := hrest.congr hhead
  rw [substituteFrom_stretch_append hne hname hword hrest] at h
  rcases h.of_append hne' hother hends with ⟨front, back, htext, hready, hcloses⟩ | hplace
  · split at htext
    case isTrue hreplaced =>
      -- the place is in what has been put in, up to the boundary behind the name
      obtain ⟨rfl, -, -⟩ := hreplaced
      refine .inl ⟨front, back, htext, hready, ?_⟩
      cases back with
      | nil => rfl
      | cons d back => exact hcloses
    case isFalse hkept =>
      -- the place is the whole stretch
      subst htext
      obtain ⟨rfl, hback, hrest'⟩ := hword.eq_of_stands hends hother hready hcloses
        (List.append_assoc other back _)
      have hclosesRest : closes rest = true := by rw [← closes_congr hhead, hrest', hcloses]
      rw [hback] at hkept ⊢
      exact .inr ⟨fun heq => hkept ⟨hready, hclosesRest, heq⟩, [], rest, rfl, hready, hclosesRest⟩
  · exact (hnext hplace).imp_right fun ⟨hdiffers, hrest⟩ => ⟨hdiffers, hrest.append_left word⟩

/-- Where a name stands after another one has been replaced, it stands in what was put in, or it
stood before and was not the one that was replaced. -/
theorem HasPlaceFrom.of_substituteFrom
    (h : HasPlaceFrom other ready (substituteFrom name replacement ready text)) :
    HasPlace other replacement ∨ (other ≠ name ∧ HasPlaceFrom other ready text) := by
  induction stretches text generalizing ready with
  | @last word hword =>
    have hnil : EndsStretch [] := fun c hc => by cases hc
    rw [← List.append_nil word] at h ⊢
    refine of_substituteFrom_stretch hne hname hne' hother hword hnil (fun hplace => ?_) h
    exact absurd hplace (not_hasPlaceFrom_nil hne')
  | @cons word c text hword hc _ ih =>
    have hends : EndsStretch (c :: text) := fun d hd => by
      cases hd
      exact hc
    refine of_substituteFrom_stretch hne hname hne' hother hword hends (fun hplace => ?_) h
    rw [substituteFrom_false_cons, hasPlaceFrom_false_cons] at hplace
    rw [hasPlaceFrom_false_cons]
    exact ih hplace

/-- The same for places in a whole text. -/
theorem HasPlace.of_substitute (h : HasPlace other (substitute name replacement text)) :
    HasPlace other replacement ∨ (other ≠ name ∧ HasPlace other text) := by
  have hfrom : HasPlaceFrom other true (substituteFrom name replacement true text) :=
    hasPlaceFrom_true.2 h
  exact (HasPlaceFrom.of_substituteFrom hne hname hne' hother hfrom).imp_right
    (And.imp_right hasPlaceFrom_true.1)

end OneName

/-! ### Replacing all names -/

/-- A name that has no place in a text, nor in what is put in, has none in the result. -/
theorem not_hasPlace_populate (h : AreNames conditions) (hne : name ≠ []) (hname : IsStretch name)
    (htexts : ∀ condition ∈ conditions, ¬ HasPlace name condition.2) (htext : ¬ HasPlace name text) :
    ¬ HasPlace name (populate conditions text) := by
  induction conditions generalizing text with
  | nil => exact htext
  | cons condition conditions ih =>
    obtain ⟨hcondition, htexts⟩ := List.forall_mem_cons.1 htexts
    refine ih (h.sublist (List.sublist_cons_self _ _)) htexts fun hplace => ?_
    rcases HasPlace.of_substitute (h.ne_nil _ List.mem_cons_self)
      (h.isStretch _ List.mem_cons_self) hne hname hplace with hput | ⟨-, hkept⟩
    · exact hcondition hput
    · exact htext hkept

namespace IsOrdered

theorem tail (h : IsOrdered (condition :: conditions)) : IsOrdered conditions where
  toAreNames := h.sublist (List.sublist_cons_self _ _)
  own other hother := h.own other (List.mem_cons_of_mem _ hother)
  earlier := (List.pairwise_cons.1 h.earlier).2

/-- No name is left. -/
theorem not_hasPlace (h : IsOrdered conditions) (text : List Char) :
    ∀ condition ∈ conditions, ¬ HasPlace condition.1 (populate conditions text) := by
  induction conditions generalizing text with
  | nil =>
    intro condition hcondition
    cases hcondition
  | cons first conditions ih =>
    intro condition hcondition
    rcases List.mem_cons.1 hcondition with rfl | hmem
    · have hne := h.ne_nil _ hcondition
      have hname := h.isStretch _ hcondition
      show ¬ HasPlace condition.1
        (populate conditions (substitute condition.1 condition.2 text))
      refine not_hasPlace_populate h.tail.toAreNames hne hname
        (List.pairwise_cons.1 h.earlier).1 fun hplace => ?_
      -- replacing a name leaves it only in what is put in
      rcases HasPlace.of_substitute hne hname hne hname hplace with hown | ⟨hdiffers, -⟩
      · exact h.own _ hcondition hown
      · exact hdiffers rfl
    · exact ih h.tail _ condition hmem

/-- The populated texts have no place for any name. -/
theorem isIndependent_expanded (h : IsOrdered conditions) :
    IsIndependent (expanded conditions) where
  ne_nil := List.forall_mem_map.2 h.ne_nil
  isStretch := List.forall_mem_map.2 h.isStretch
  nodup := by
    rw [expanded, List.map_map]
    exact h.nodup
  not_hasPlace := by
    refine List.forall_mem_map.2 fun condition _ => List.forall_mem_map.2 fun other hother _ => ?_
    exact h.not_hasPlace condition.2 other hother

end IsOrdered

/-- A text without a place for any name stays. -/
theorem populate_of_not_hasPlace (h : AreNames conditions)
    (htext : ∀ condition ∈ conditions, ¬ HasPlace condition.1 text) :
    populate conditions text = text := by
  have hstays : populateFrom conditions true (text ++ []) =
      text ++ populateFrom conditions false [] :=
    populateFrom_append fun condition hmem other hhead =>
      substituteFrom_of_not_hasPlace (h.ne_nil _ hmem) (h.isStretch _ hmem) (closes_congr hhead)
        (htext condition hmem)
  rwa [List.append_nil, populateFrom_false_nil, List.append_nil] at hstays

/-- Replacing names goes on by itself behind a boundary that may end a name. -/
theorem populateFrom_append_of_closes (h : AreNames conditions) (hcloses : closes rest = true) :
    populateFrom conditions ready (text ++ rest) =
      populateFrom conditions ready text ++ populateFrom conditions false rest := by
  induction conditions generalizing text rest with
  | nil => rfl
  | cons condition conditions ih =>
    show populateFrom conditions ready (substituteFrom _ _ ready (text ++ rest)) = _
    have hcloses' : closes (substituteFrom condition.1 condition.2 false rest) = true := by
      rw [closes_congr head?_substituteFrom, hcloses]
    rw [substituteFrom_append_of_closes (h.ne_nil _ List.mem_cons_self)
      (h.isStretch _ List.mem_cons_self) hcloses,
      ih (h.sublist (List.sublist_cons_self _ _)) hcloses']
    rfl

namespace IsOrdered

/-- A name between boundaries becomes its populated text. -/
theorem populateFrom_name (h : IsOrdered conditions) (hmem : (name, replacement) ∈ conditions)
    (hcloses : closes rest = true) :
    populateFrom conditions true (name ++ rest) =
      populate conditions replacement ++ populateFrom conditions false rest := by
  obtain ⟨front, later, rfl⟩ := List.append_of_mem hmem
  have hnames := h.toAreNames
  have hlater : AreNames later := hnames.sublist (by simp)
  have hbehind : closes (substituteFrom name replacement false (populateFrom front false rest)) =
      true := by
    rw [closes_congr (head?_substituteFrom.trans head?_populateFrom), hcloses]
  have htext : populate (front ++ (name, replacement) :: later) replacement =
      populate later replacement := by
    -- the names up to this one have no place in its text
    have hstays : populate (front ++ [(name, replacement)]) replacement = replacement := by
      refine populate_of_not_hasPlace (hnames.sublist (by simp)) fun condition hcondition => ?_
      rcases List.mem_append.1 hcondition with hfront | hname
      · exact (List.pairwise_append.1 h.earlier).2.2 condition hfront _ List.mem_cons_self
      · rw [List.mem_singleton.1 hname]
        exact h.own _ hmem
    rw [List.append_cons, populate, List.foldl_append]
    exact congrArg (populate later) hstays
  rw [hnames.populateFrom_name hcloses, populateFrom_append_of_closes hlater hbehind, htext,
    populateFrom_append_cons]
  rfl

/-- One name after the other comes to the same as all of them at once with their populated texts. -/
theorem populateFrom_stretch_expanded (h : IsOrdered conditions) (hword : IsStretch word)
    (hrest : EndsStretch rest)
    (heq : populateFrom conditions false rest = populateFrom (expanded conditions) false rest) :
    populateFrom conditions ready (word ++ rest) =
      populateFrom (expanded conditions) ready (word ++ rest) := by
  have hindependent := h.isIndependent_expanded
  by_cases hfound : ready = true ∧ closes rest = true ∧
      ∃ replacement, (word, replacement) ∈ conditions
  · obtain ⟨rfl, hcloses, replacement, hmem⟩ := hfound
    have hmem' : (word, populate conditions replacement) ∈ expanded conditions :=
      List.mem_map_of_mem hmem
    rw [h.populateFrom_name hmem hcloses, hindependent.populateFrom_name hmem' hcloses, heq]
  · have hnone : ready = true → closes rest = true →
        ∀ condition ∈ conditions, condition.1 ≠ word := by
      rintro hready hcloses condition hmem rfl
      exact hfound ⟨hready, hcloses, condition.2, hmem⟩
    rw [h.toAreNames.populateFrom_stretch hword hrest hnone,
      hindependent.areNames.populateFrom_stretch hword hrest fun hready hcloses =>
        List.forall_mem_map.2 (hnone hready hcloses), heq]

theorem populateFrom_expanded (h : IsOrdered conditions) (text : List Char) :
    populateFrom conditions ready text = populateFrom (expanded conditions) ready text := by
  induction stretches text generalizing ready with
  | @last word hword =>
    rw [← List.append_nil word]
    exact h.populateFrom_stretch_expanded hword (fun c hc => by cases hc)
      (populateFrom_false_nil.trans populateFrom_false_nil.symm)
  | @cons word c rest hword hc _ ih =>
    refine h.populateFrom_stretch_expanded hword (fun d hd => by cases hd; exact hc) ?_
    rw [populateFrom_false_cons, populateFrom_false_cons, ih]

end IsOrdered

/-- **Ordered conditions are put in completely.** Let names be distinct, of one or more characters,
without blanks, parentheses and `!`, in an order in which no text has a place for its own name or for
an earlier one. Then replacing them in this order leaves no place for any of them. What it gives is
the text in which every name between boundaries has become its own text, itself without a place for
any name, and every other character has stayed. -/
theorem populate_of_isOrdered (conditions : Conditions) (text : List Char)
    (h : IsOrdered conditions) :
    (∀ condition ∈ conditions, ¬ HasPlace condition.1 (populate conditions text)) ∧
      ∀ result, populate conditions text = result ↔
        Replaced (expanded conditions) [] text result := by
  refine ⟨h.not_hasPlace text, fun result => ?_⟩
  have hindependent := h.isIndependent_expanded
  have hreplaced : Replaced (expanded conditions) [] text (populate conditions text) := by
    rw [← populateFrom_true, h.populateFrom_expanded]
    exact hindependent.replaced_populateFrom [] text
  constructor
  · rintro rfl
    exact hreplaced
  · exact hreplaced.unique hindependent

/-- Of three names each text uses the next ones, and the last one has no text at all. -/
theorem populate_of_isOrdered_three :
    let conditions : Conditions :=
      [("p".toList, "!q r".toList), ("q".toList, "(r q.x)".toList), ("r".toList, "".toList)]
    IsOrdered conditions ∧ populate conditions "p (q) pq".toList = "!( q.x)  (( q.x)) pq".toList ∧
      ∀ condition ∈ conditions, ¬ HasPlace condition.1 "!( q.x)  (( q.x)) pq".toList := by
  intro conditions
  have hordered : IsOrdered conditions := ⟨⟨by decide, by decide, by decide⟩, by decide, by decide⟩
  have hresult : populate conditions "p (q) pq".toList = "!( q.x)  (( q.x)) pq".toList := by decide
  refine ⟨hordered, hresult, ?_⟩
  rw [← hresult]
  exact (populate_of_isOrdered conditions _ hordered).1

end Criteria.Conditions
