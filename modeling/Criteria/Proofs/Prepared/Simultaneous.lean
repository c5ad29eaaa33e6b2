import Mathlib.Data.List.Nodup
import Criteria.Proofs.Prepared.Substitution

/-!
# Replacing all names at once

Names are replaced one after the other, each in the text that the names before it have left behind.
If no replacement has a place for another name, this comes to the same as replacing all of them at
once, in whatever order they come (`populate_eq_iff`).

* `Stands`, `HasPlace`: a name stands between boundaries, at a place or at any;
* `Replaced`: what a text becomes if all names are replaced at once;
* `Stretches`: a text as stretches with boundaries between them. A name between boundaries is a whole
  stretch, and this is what every proof here rests on;
* `substituteFrom`, `populateFrom`: replacing in what follows a beginning of a text, which goes from
  stretch to stretch.
-/

namespace Criteria.Conditions

variable {name other replacement text rest before after front back word result : List Char}
  {c : Char} {ready : Bool} {conditions order : Conditions}

/-- The characters that end a stretch: blanks, parentheses and `!`. -/
def isBoundary (c : Char) : Bool := isBlank c || c == '(' || c == ')' || c == '!'

/-- Characters none of which is a boundary. -/
def IsStretch (word : List Char) : Prop := ∀ c ∈ word, isBoundary c = false

/-- Characters that are none or begin with a boundary. -/
def EndsStretch (rest : List Char) : Prop := ∀ c, rest.head? = some c → isBoundary c = true

/-- Whether a name may follow some characters. The last of them decides; if there is none it is as
`ready` says. -/
def mayFollow (ready : Bool) : List Char → Bool
  | [] => ready
  | c :: rest => mayFollow (opens c) rest

/-- A name stands between boundaries in a text: before it the beginning, a blank, `(` or `!`, after it
the end, a blank or `)`. -/
structure Stands (name before after text : List Char) : Prop where
  text_eq : text = before ++ (name ++ after)
  mayFollow : mayFollow true before = true
  closes : closes after = true

/-- A name stands between boundaries somewhere in a text. -/
def HasPlace (name text : List Char) : Prop := ∃ before after, Stands name before after text

/-- What the rest of a text becomes, after what stands before it, if all names are replaced at once:
a name between boundaries becomes its own text, and every other character stays. -/
inductive Replaced (conditions : Conditions) : List Char → List Char → List Char → Prop
  | nil {before : List Char} : Replaced conditions before [] []
  | name {name replacement before after rest result : List Char}
    (hcondition : (name, replacement) ∈ conditions)
    (hstands : Stands name before after (before ++ rest))
    (hafter : Replaced conditions (before ++ name) after result) :
    Replaced conditions before rest (replacement ++ result)
  | char {c : Char} {before rest result : List Char}
    (hnone : ∀ condition ∈ conditions, ∀ after,
      ¬ Stands condition.1 before after (before ++ c :: rest))
    (hrest : Replaced conditions (before ++ [c]) rest result) :
    Replaced conditions before (c :: rest) (c :: result)

/-- Distinct names of one or more characters, without boundaries, such that no replacement has a place
for another name than its own. -/
structure IsIndependent (conditions : Conditions) : Prop where
  ne_nil : ∀ condition ∈ conditions, condition.1 ≠ []
  isStretch : ∀ condition ∈ conditions, IsStretch condition.1
  nodup : (conditions.map Prod.fst).Nodup
  not_hasPlace : ∀ condition ∈ conditions, ∀ other ∈ conditions, other.1 ≠ condition.1 →
    ¬ HasPlace other.1 condition.2

/-- Distinct names of one or more characters, without boundaries. -/
structure AreNames (conditions : Conditions) : Prop where
  ne_nil : ∀ condition ∈ conditions, condition.1 ≠ []
  isStretch : ∀ condition ∈ conditions, IsStretch condition.1
  nodup : (conditions.map Prod.fst).Nodup

instance (word : List Char) : Decidable (IsStretch word) :=
  List.decidableBAll (fun c => isBoundary c = false) word

/-! ### Boundaries and stretches -/

theorem isBoundary_of_opens (h : opens c = true) : isBoundary c = true := by
  simp only [opens, isBoundary, Bool.or_eq_true] at h ⊢
  rcases h with (hblank | hopening) | hmark
  · exact .inl (.inl (.inl hblank))
  · exact .inl (.inl (.inr hopening))
  · exact .inr hmark

theorem endsStretch_of_closes (h : closes rest = true) : EndsStretch rest := by
  rintro c hc
  cases rest with
  | nil => cases hc
  | cons d rest =>
    cases hc
    simp only [closes, isBoundary, Bool.or_eq_true] at h ⊢
    rcases h with hblank | hclosing
    · exact .inl (.inl (.inl hblank))
    · exact .inl (.inr hclosing)

theorem closes_congr (h : rest.head? = other.head?) : closes rest = closes other := by
  cases rest <;> cases other <;> simp_all [closes]

theorem EndsStretch.congr (h : EndsStretch rest) (hhead : other.head? = rest.head?) :
    EndsStretch other := fun c hc => h c (hhead ▸ hc)

theorem mayFollow_append (ready : Bool) (front back : List Char) :
    mayFollow ready (front ++ back) = mayFollow (mayFollow ready front) back := by
  induction front generalizing ready with
  | nil => rfl
  | cons c front ih => exact ih (opens c)

/-- No name follows a stretch. -/
theorem IsStretch.mayFollow_eq_false (h : IsStretch word) (hne : word ≠ []) (ready : Bool) :
    mayFollow ready word = false := by
  induction word generalizing ready with
  | nil => exact absurd rfl hne
  | cons c word ih =>
    obtain ⟨hc, hword⟩ := List.forall_mem_cons.1 h
    have hopens : opens c = false :=
      Bool.eq_false_iff.2 fun hopens => Bool.eq_false_iff.1 hc (isBoundary_of_opens hopens)
    cases word with
    | nil => exact hopens
    | cons d word => exact ih hword (List.cons_ne_nil d word) (opens c)

/-- A text begins with one stretch only. -/
theorem IsStretch.append_inj (hname : IsStretch name) (hword : IsStretch word)
    (hafter : EndsStretch after) (hrest : EndsStretch rest) (h : name ++ after = word ++ rest) :
    name = word ∧ after = rest := by
  induction name generalizing word with
  | nil =>
    cases word with
    | nil => exact ⟨rfl, h⟩
    | cons d word =>
      have hd := hafter d (by rw [← List.nil_append after, h]; rfl)
      rw [hword d List.mem_cons_self] at hd
      cases hd
  | cons c name ih =>
    obtain ⟨hc, hname⟩ := List.forall_mem_cons.1 hname
    cases word with
    | nil =>
      have hc' := hrest c (by rw [← List.nil_append rest, ← h]; rfl)
      rw [hc] at hc'
      cases hc'
    | cons d word =>
      obtain ⟨rfl, htail⟩ := List.cons.inj h
      obtain ⟨rfl, rfl⟩ := ih hname (List.forall_mem_cons.1 hword).2 htail
      exact ⟨rfl, rfl⟩

/-- A text as stretches, with a boundary after each of them but the last one. -/
inductive Stretches : List Char → Prop
  | last {word : List Char} (hword : IsStretch word) : Stretches word
  | cons {word : List Char} {c : Char} {rest : List Char} (hword : IsStretch word)
    (hc : isBoundary c = true) (hrest : Stretches rest) : Stretches (word ++ c :: rest)

/-- Every text is one of stretches. -/
theorem stretches (text : List Char) : Stretches text := by
  induction text with
  | nil => exact .last fun c hc => by cases hc
  | cons d text ih =>
    cases hd : isBoundary d with
    | true =>
      have hempty : IsStretch [] := fun c hc => by cases hc
      exact .cons hempty hd ih
    | false =>
      cases ih with
      | last hword => exact .last (List.forall_mem_cons.2 ⟨hd, hword⟩)
      | cons hword hc hrest => exact .cons (List.forall_mem_cons.2 ⟨hd, hword⟩) hc hrest

/-! ### Where a name stands -/

instance : Decidable (Stands name before after text) :=
  decidable_of_iff (text = before ++ (name ++ after) ∧ mayFollow true before = true ∧
    closes after = true) ⟨fun h => ⟨h.1, h.2.1, h.2.2⟩, fun h => ⟨h.text_eq, h.mayFollow, h.closes⟩⟩

/-- It is enough to look at the places where a name can begin. -/
theorem hasPlace_iff :
    HasPlace name text ↔ ∃ start ∈ List.range (text.length + 1),
      Stands name (text.take start) (text.drop (start + name.length)) text := by
  constructor
  · rintro ⟨before, after, hstands⟩
    have htext := hstands.text_eq
    have hbefore : text.take before.length = before := by rw [htext, List.take_left]
    have hafter : text.drop (before.length + name.length) = after := by
      rw [htext, ← List.append_assoc, ← List.length_append, List.drop_left]
    refine ⟨before.length, ?_, ?_⟩
    · simp only [List.mem_range, htext, List.length_append]
      omega
    · rw [hbefore, hafter]
      exact hstands
  · rintro ⟨start, -, hstands⟩
    exact ⟨_, _, hstands⟩

instance : Decidable (HasPlace name text) := decidable_of_iff _ hasPlace_iff.symm

theorem Stands.rest_eq (h : Stands name before after (before ++ rest)) : rest = name ++ after :=
  List.append_cancel_left h.text_eq

/-- At one place stands one name at most. -/
theorem Stands.unique {later : List Char} (h : Stands name before after text)
    (h' : Stands other before later text) (hname : IsStretch name) (hother : IsStretch other) :
    name = other ∧ after = later := by
  have htext : name ++ after = other ++ later :=
    List.append_cancel_left (h.text_eq.symm.trans h'.text_eq)
  exact hname.append_inj hother (endsStretch_of_closes h.closes) (endsStretch_of_closes h'.closes)
    htext

/-- A name that stands between boundaries within a stretch is the whole of it. -/
theorem IsStretch.eq_of_stands (hword : IsStretch (front ++ back)) (hrest : EndsStretch rest)
    (hname : IsStretch name) (hready : mayFollow ready front = true) (hcloses : closes after = true)
    (h : back ++ rest = name ++ after) : front = [] ∧ back = name ∧ rest = after := by
  obtain ⟨hfront, hback⟩ := List.forall_mem_append.1 hword
  have hempty : front = [] := by
    refine Decidable.byContradiction fun hne => ?_
    rw [IsStretch.mayFollow_eq_false hfront hne] at hready
    cases hready
  exact ⟨hempty, IsStretch.append_inj hback hname hrest (endsStretch_of_closes hcloses) h⟩

/-! ### One name in what follows the beginning of a text -/

/-- Replace a name in a text, at the beginning of which it is replaced only if `ready`. -/
def substituteFrom (name replacement : List Char) (ready : Bool) (text : List Char) : List Char :=
  if ready then substitute name replacement text else substituteAfter name replacement text 0

theorem substituteFrom_of_not (h : (ready && standsAt name text) = false) :
    substituteFrom name replacement ready text = substituteAfter name replacement text 0 := by
  cases ready with
  | false => rfl
  | true => exact substitute_of_not h

/-- A character stays if no name stands before it. -/
theorem substituteFrom_cons (h : (ready && standsAt name (c :: rest)) = false) :
    substituteFrom name replacement ready (c :: rest) =
      c :: substituteFrom name replacement (opens c) rest := by
  rw [substituteFrom_of_not h]
  cases hopens : opens c with
  | true => exact substituteAfter_cons (.inl hopens)
  | false =>
    rw [substituteAfter, hopens]
    rfl

theorem substituteFrom_false_cons :
    substituteFrom name replacement false (c :: rest) =
      c :: substituteFrom name replacement (opens c) rest := substituteFrom_cons rfl

/-- A name between boundaries is replaced. -/
theorem substituteFrom_name (hcloses : closes rest = true) :
    substituteFrom name replacement true (name ++ rest) =
      replacement ++ substituteFrom name replacement false rest := by
  have hstands : standsAt name (name ++ rest) = true := standsAt_iff.2 ⟨rest, rfl, hcloses⟩
  show substitute name replacement (name ++ rest) = _
  rw [substitute, hstands, if_pos rfl, substituteAfter_length]
  rfl

/-- Characters stay if no name begins in them. -/
theorem substituteFrom_append
    (h : ∀ front back after, text = front ++ back → back ≠ [] → mayFollow ready front = true →
      closes after = true → back ++ rest ≠ name ++ after) :
    substituteFrom name replacement ready (text ++ rest) =
      text ++ substituteFrom name replacement (mayFollow ready text) rest := by
  induction text generalizing ready with
  | nil => rfl
  | cons c text ih =>
    have hnot : (ready && standsAt name (c :: (text ++ rest))) = false := by
      refine Bool.eq_false_iff.2 fun hstands => ?_
      obtain ⟨hready, hname⟩ := Bool.and_eq_true_iff.1 hstands
      obtain ⟨after, htext, hcloses⟩ := standsAt_iff.1 hname
      exact h [] (c :: text) after rfl (List.cons_ne_nil c text) hready hcloses htext
    have htail : substituteFrom name replacement (opens c) (text ++ rest) =
        text ++ substituteFrom name replacement (mayFollow (opens c) text) rest :=
      ih fun front back after htext hne hready hcloses =>
        h (c :: front) back after (congrArg (c :: ·) htext) hne hready hcloses
    rw [List.cons_append, substituteFrom_cons hnot, htail]
    rfl

/-- What begins with a boundary, or not at all, stays as it begins. -/
theorem head?_substituteFrom :
    (substituteFrom name replacement false text).head? = text.head? := by
  cases text with
  | nil => rfl
  | cons c rest => rw [substituteFrom_false_cons]; rfl

/-- No name begins where a stretch ends. -/
theorem substituteFrom_of_endsStretch (hne : name ≠ []) (hname : IsStretch name)
    (hrest : EndsStretch rest) :
    substituteFrom name replacement ready rest = substituteFrom name replacement false rest := by
  refine substituteFrom_of_not ?_
  have hnot : standsAt name rest = false := by
    refine Bool.eq_false_iff.2 fun hstands => ?_
    obtain ⟨after, rfl, -⟩ := standsAt_iff.1 hstands
    obtain ⟨c, tail, rfl⟩ := List.exists_cons_of_ne_nil hne
    have hc := hrest c rfl
    rw [hname c List.mem_cons_self] at hc
    cases hc
  rw [hnot, Bool.and_false]

/-- A stretch stays unless it is the name between boundaries. -/
theorem substituteFrom_stretch (hne : name ≠ []) (hname : IsStretch name) (hword : IsStretch word)
    (hrest : EndsStretch rest) (h : ready = true → closes rest = true → word ≠ name) :
    substituteFrom name replacement ready (word ++ rest) =
      word ++ substituteFrom name replacement false rest := by
  rw [substituteFrom_append, substituteFrom_of_endsStretch hne hname hrest]
  rintro front back after rfl - hready hcloses htext
  obtain ⟨rfl, rfl, rfl⟩ := hword.eq_of_stands hrest hname hready hcloses htext
  exact h hready hcloses rfl

/-- A text without a place for the name stays between boundaries. -/
theorem substituteFrom_of_not_hasPlace (hne : name ≠ []) (hname : IsStretch name)
    (hcloses : closes rest = true) (h : ¬ HasPlace name text) :
    substituteFrom name replacement true (text ++ rest) =
      text ++ substituteFrom name replacement false rest := by
  have hrest := endsStretch_of_closes hcloses
  rw [substituteFrom_append, substituteFrom_of_endsStretch hne hname hrest]
  rintro front back after rfl hback hready hafter htext
  rcases List.append_eq_append_iff.1 htext with ⟨more, hmore, hrest'⟩ | ⟨more, rfl, rfl⟩
  · -- the name cannot go on behind the text, where a boundary stands
    cases more with
    | nil =>
      rw [List.append_nil] at hmore
      exact h ⟨front, [], by rw [hmore, List.append_nil], hready, rfl⟩
    | cons d more =>
      have hd := hrest d (by rw [hrest']; rfl)
      rw [hname d (by simp [hmore])] at hd
      cases hd
  · refine h ⟨front, more, rfl, hready, ?_⟩
    cases more with
    | nil => rfl
    | cons d more => exact hafter

/-! ### All names in what follows the beginning of a text -/

/-- Replace names one after the other in a text, at the beginning of which they are replaced only if
`ready`. -/
def populateFrom (conditions : Conditions) (ready : Bool) (text : List Char) : List Char :=
  conditions.foldl (fun text condition => substituteFrom condition.1 condition.2 ready text) text

theorem populateFrom_true (conditions : Conditions) (text : List Char) :
    populateFrom conditions true text = populate conditions text := rfl

theorem populateFrom_false_nil : populateFrom conditions false [] = [] := by
  induction conditions with
  | nil => rfl
  | cons condition conditions ih => exact ih

theorem populateFrom_false_cons :
    populateFrom conditions false (c :: rest) = c :: populateFrom conditions (opens c) rest := by
  induction conditions generalizing rest with
  | nil => rfl
  | cons condition conditions ih =>
    show populateFrom conditions false (substituteFrom _ _ false (c :: rest)) = _
    rw [substituteFrom_false_cons, ih]
    rfl

theorem head?_populateFrom : (populateFrom conditions false text).head? = text.head? := by
  cases text with
  | nil => rw [populateFrom_false_nil]
  | cons c rest => rw [populateFrom_false_cons]; rfl

/-- What stays under every name by itself stays under all of them. -/
theorem populateFrom_append
    (h : ∀ condition ∈ conditions, ∀ other : List Char, other.head? = rest.head? →
      substituteFrom condition.1 condition.2 ready (text ++ other) =
        text ++ substituteFrom condition.1 condition.2 false other) :
    populateFrom conditions ready (text ++ rest) = text ++ populateFrom conditions false rest := by
  induction conditions generalizing rest with
  | nil => rfl
  | cons condition conditions ih =>
    show populateFrom conditions ready (substituteFrom _ _ ready (text ++ rest)) = _
    rw [h condition List.mem_cons_self rest rfl]
    refine ih fun next hnext other hother => ?_
    exact h next (List.mem_cons_of_mem _ hnext) other (hother.trans head?_substituteFrom)

theorem populateFrom_append_cons (earlier later : Conditions) :
    populateFrom (earlier ++ (name, replacement) :: later) ready text =
      populateFrom later ready
        (substituteFrom name replacement ready (populateFrom earlier ready text)) := by
  simp [populateFrom]

namespace AreNames

theorem sublist (h : AreNames conditions) (hsublist : order.Sublist conditions) :
    AreNames order where
  ne_nil condition hmem := h.ne_nil condition (hsublist.subset hmem)
  isStretch condition hmem := h.isStretch condition (hsublist.subset hmem)
  nodup := h.nodup.sublist (hsublist.map Prod.fst)

/-- A stretch stays unless it is a name between boundaries. -/
theorem populateFrom_stretch (h : AreNames conditions) (hword : IsStretch word)
    (hrest : EndsStretch rest)
    (hother : ready = true → closes rest = true → ∀ condition ∈ conditions, condition.1 ≠ word) :
    populateFrom conditions ready (word ++ rest) = word ++ populateFrom conditions false rest := by
  refine populateFrom_append fun condition hmem other hhead => ?_
  refine substituteFrom_stretch (h.ne_nil _ hmem) (h.isStretch _ hmem) hword (hrest.congr hhead) ?_
  intro hready hcloses
  exact (hother hready (closes_congr hhead ▸ hcloses) condition hmem).symm

/-- A name between boundaries stays under the names before it and becomes its own text, which is left
to the names behind it. -/
theorem populateFrom_name {earlier later : Conditions}
    (h : AreNames (earlier ++ (name, replacement) :: later)) (hcloses : closes rest = true) :
    populateFrom (earlier ++ (name, replacement) :: later) true (name ++ rest) =
      populateFrom later true
        (replacement ++ substituteFrom name replacement false (populateFrom earlier false rest)) := by
  have hword : IsStretch name := h.isStretch (name, replacement) (by simp)
  have hothers : ∀ condition ∈ earlier, condition.1 ≠ name := by
    have hnodup := h.nodup
    rw [List.map_append, List.nodup_append] at hnodup
    exact fun condition hmem => hnodup.2.2 _ (List.mem_map_of_mem hmem) _ List.mem_cons_self
  have hfirst : populateFrom earlier true (name ++ rest) =
      name ++ populateFrom earlier false rest :=
    (h.sublist (List.sublist_append_left _ _)).populateFrom_stretch hword
      (endsStretch_of_closes hcloses) fun _ _ => hothers
  have hclosesEarlier : closes (populateFrom earlier false rest) = true := by
    rw [closes_congr head?_populateFrom, hcloses]
  rw [populateFrom_append_cons, hfirst, substituteFrom_name hclosesEarlier]

end AreNames

namespace IsIndependent

theorem areNames (h : IsIndependent conditions) : AreNames conditions :=
  ⟨h.ne_nil, h.isStretch, h.nodup⟩

/-- A name between boundaries becomes its own text, which stays under the names that follow. -/
theorem populateFrom_name (h : IsIndependent conditions) (hmem : (name, replacement) ∈ conditions)
    (hcloses : closes rest = true) :
    populateFrom conditions true (name ++ rest) =
      replacement ++ populateFrom conditions false rest := by
  obtain ⟨earlier, later, rfl⟩ := List.append_of_mem hmem
  have hnodup := h.nodup
  simp only [List.map_append, List.map_cons, List.nodup_append, List.nodup_cons] at hnodup
  obtain ⟨-, ⟨hlater, -⟩, -⟩ := hnodup
  rw [h.areNames.populateFrom_name hcloses, populateFrom_append_cons]
  -- the later names have no place in the text that has been put in
  refine populateFrom_append fun condition hcondition other hhead => ?_
  have hmem' : condition ∈ earlier ++ (name, replacement) :: later := by simp [hcondition]
  refine substituteFrom_of_not_hasPlace (h.ne_nil _ hmem') (h.isStretch _ hmem') ?_ ?_
  · rw [closes_congr (hhead.trans (head?_substituteFrom.trans head?_populateFrom)), hcloses]
  · refine h.not_hasPlace _ hmem condition hmem' fun hname => hlater ?_
    exact List.mem_map.2 ⟨condition, hcondition, hname⟩

end IsIndependent

/-! ### All names at once -/

namespace Replaced

/-- Characters in which no name stands stay. -/
theorem append
    (h : ∀ front back, word = front ++ back → back ≠ [] → ∀ condition ∈ conditions, ∀ after,
      ¬ Stands condition.1 (before ++ front) after (before ++ front ++ (back ++ rest)))
    (hrest : Replaced conditions (before ++ word) rest result) :
    Replaced conditions before (word ++ rest) (word ++ result) := by
  induction word generalizing before with
  | nil => rwa [List.append_nil] at hrest
  | cons c word ih =>
    refine .char (fun condition hmem after => ?_) (ih (fun front back hword => ?_) ?_)
    · have hnone := h [] (c :: word) rfl (List.cons_ne_nil c word) condition hmem after
      rwa [List.append_nil] at hnone
    · have hnone := h (c :: front) back (congrArg (c :: ·) hword)
      simpa using hnone
    · simpa using hrest

/-- At most one text is the outcome. -/
theorem unique (h : IsIndependent conditions) (hresult : Replaced conditions before text result)
    (hother : Replaced conditions before text other) : result = other := by
  induction hresult generalizing other with
  | nil =>
    cases hother with
    | nil => rfl
    | name hmem hstands _ =>
      have htext := hstands.rest_eq
      exact absurd (List.append_eq_nil_iff.1 htext.symm).1 (h.ne_nil _ hmem)
  | name hmem hstands hafter ih =>
    cases hother with
    | nil =>
      have htext := hstands.rest_eq
      exact absurd (List.append_eq_nil_iff.1 htext.symm).1 (h.ne_nil _ hmem)
    | name hmem' hstands' hafter' =>
      obtain ⟨rfl, rfl⟩ := hstands.unique hstands' (h.isStretch _ hmem) (h.isStretch _ hmem')
      have hreplacement := List.inj_on_of_nodup_map h.nodup hmem hmem' rfl
      rw [ih hafter', (Prod.mk.inj hreplacement).2]
    | char hnone _ => exact absurd hstands (hnone _ hmem _)
  | char hnone hrest ih =>
    cases hother with
    | name hmem hstands _ => exact absurd hstands (hnone _ hmem _)
    | char _ hrest' => rw [ih hrest']

/-- Their order does not matter if all names are replaced at once. -/
theorem perm (horder : order.Perm conditions) (h : Replaced order before text result) :
    Replaced conditions before text result := by
  induction h with
  | nil => exact .nil
  | name hmem hstands _ ih => exact .name (horder.mem_iff.1 hmem) hstands ih
  | char hnone _ ih =>
    exact .char (fun condition hmem => hnone condition (horder.mem_iff.2 hmem)) ih

end Replaced

namespace IsIndependent

theorem perm (horder : order.Perm conditions) (h : IsIndependent conditions) :
    IsIndependent order where
  ne_nil condition hmem := h.ne_nil condition (horder.mem_iff.1 hmem)
  isStretch condition hmem := h.isStretch condition (horder.mem_iff.1 hmem)
  nodup := (horder.map Prod.fst).nodup_iff.2 h.nodup
  not_hasPlace condition hmem other hother :=
    h.not_hasPlace condition (horder.mem_iff.1 hmem) other (horder.mem_iff.1 hother)

/-- A stretch becomes what it becomes if all names are replaced at once. -/
theorem replaced_stretch (h : IsIndependent conditions) (hword : IsStretch word)
    (hrest : EndsStretch rest)
    (hreplaced : Replaced conditions (before ++ word) rest (populateFrom conditions false rest)) :
    Replaced conditions before (word ++ rest)
      (populateFrom conditions (mayFollow true before) (word ++ rest)) := by
  by_cases hfound : mayFollow true before = true ∧ closes rest = true ∧
      ∃ replacement, (word, replacement) ∈ conditions
  · obtain ⟨hready, hcloses, replacement, hmem⟩ := hfound
    rw [hready, h.populateFrom_name hmem hcloses]
    exact .name hmem ⟨rfl, hready, hcloses⟩ hreplaced
  · rw [h.areNames.populateFrom_stretch hword hrest]
    · refine Replaced.append (fun front back hsplit _ condition hmem after hstands => ?_) hreplaced
      subst hsplit
      have hready := hstands.mayFollow
      rw [mayFollow_append] at hready
      obtain ⟨rfl, rfl, rfl⟩ := hword.eq_of_stands hrest (h.isStretch _ hmem) hready hstands.closes
        hstands.rest_eq
      exact hfound ⟨hready, hstands.closes, condition.2, hmem⟩
    · rintro hready hcloses condition hmem rfl
      exact hfound ⟨hready, hcloses, condition.2, hmem⟩

/-- Replacing one name after the other is replacing all of them at once. -/
theorem replaced_populateFrom (h : IsIndependent conditions) (before text : List Char) :
    Replaced conditions before text (populateFrom conditions (mayFollow true before) text) := by
  induction stretches text generalizing before with
  | @last word hword =>
    have hnil : Replaced conditions (before ++ word) [] (populateFrom conditions false []) := by
      rw [populateFrom_false_nil]
      exact .nil
    have hreplaced := h.replaced_stretch hword (fun c hc => by cases hc) hnil
    rwa [List.append_nil] at hreplaced
  | @cons word c rest hword hc _ ih =>
    refine h.replaced_stretch hword (fun d hd => by cases hd; exact hc) ?_
    rw [populateFrom_false_cons]
    refine .char (fun condition hmem after hstands => ?_) ?_
    · -- a boundary is no beginning of a name
      have htext := hstands.rest_eq
      obtain ⟨d, name, hname⟩ := List.exists_cons_of_ne_nil (h.ne_nil _ hmem)
      rw [hname] at htext
      have hd := h.isStretch _ hmem c (by rw [hname, (List.cons.inj htext).1]; exact List.mem_cons_self)
      rw [hc] at hd
      cases hd
    · have hrest := ih (before ++ word ++ [c])
      rwa [mayFollow_append] at hrest

end IsIndependent

/-- **Independent conditions are put in all at once.** Let names be distinct, of one or more
characters, without blanks, parentheses and `!`, and let no replacement have a place for the name of
another. Then, in whatever order they are replaced, every name between boundaries becomes its own
text, letter by letter, and every other character stays. -/
theorem populate_eq_iff (conditions order : Conditions) (text result : List Char)
    (h : IsIndependent conditions) (horder : order.Perm conditions) :
    populate order text = result ↔ Replaced conditions [] text result := by
  have hreplaced : Replaced conditions [] text (populate order text) := by
    rw [← populateFrom_true]
    exact ((h.perm horder).replaced_populateFrom [] text).perm horder
  constructor
  · rintro rfl
    exact hreplaced
  · exact hreplaced.unique h

/-- `p` has its own name in its text, `q` has no text at all, and `pq` and `q.x` are other names. -/
theorem populate_eq_iff_crossed :
    let conditions : Conditions := [("p".toList, "(q.x p)".toList), ("q".toList, "".toList)]
    let order : Conditions := [("q".toList, "".toList), ("p".toList, "(q.x p)".toList)]
    let result := "!(q.x p) && () pq\t(q.x p)".toList
    IsIndependent conditions ∧ order.Perm conditions ∧
      populate order "!p && (q) pq\tp".toList = result ∧
      Replaced conditions [] "!p && (q) pq\tp".toList result := by
  intro conditions order result
  have hindependent : IsIndependent conditions :=
    ⟨by decide, by decide, by decide, by decide⟩
  have horder : order.Perm conditions := .swap _ _ []
  have hresult : populate order "!p && (q) pq\tp".toList = result := by decide
  exact ⟨hindependent, horder, hresult,
    (populate_eq_iff conditions order _ result hindependent horder).1 hresult⟩

end Criteria.Conditions
