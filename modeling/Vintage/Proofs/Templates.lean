import Vintage.Wording

/-!
# Templates of messages

A message is made in two steps: a template is put together from the subject of a wording and from
fixed phrases, and then it is filled. Each piece of the template takes its own values, and what was
filled in is not searched for marks again. So the message can be written down without templates,
also if the texts that fill it look like marks.

Results:
* `Template.Fills.append`, `Template.Fills.joinWith`: templates are filled piece by piece.
* `Wording.introduction?_eq_late?`, `Wording.withdrawal?_eq_gone?`: the two findings of a verdict.
-/

namespace Vintage

/-! ## Filling templates piece by piece -/

namespace Template

/-- No mark stands in the text. -/
def Plain (cs : List Char) : Prop := ¬ ['%', 's'] <:+: cs

theorem plain_of_not_mem {cs : List Char} (h : '%' ∉ cs) : Plain cs :=
  fun hmark => h (hmark.subset List.mem_cons_self)

theorem fillChars_cons {c : Char} {cs : List Char} (h : ¬ (c = '%' ∧ cs.head? = some 's'))
    (values : List String) : fillChars (c :: cs) values = c :: fillChars cs values := by
  rw [fillChars]
  · rintro rest _ _ - rfl rfl
    exact h ⟨rfl, rfl⟩
  · rintro rest - rfl rfl
    exact h ⟨rfl, rfl⟩

/-- A text without marks stays as it is. -/
theorem fillChars_append {cs rest : List Char} (hcs : Plain cs) (hrest : rest.head? ≠ some 's')
    (values : List String) : fillChars (cs ++ rest) values = cs ++ fillChars rest values := by
  induction cs with
  | nil => rfl
  | cons c cs ih =>
    have hmark : ¬ (c = '%' ∧ (cs ++ rest).head? = some 's') := by
      rintro ⟨rfl, hhead⟩
      cases cs with
      | nil => exact hrest hhead
      | cons c' cs =>
        obtain rfl : c' = 's' := Option.some.inj hhead
        exact hcs ⟨[], cs, rfl⟩
    have hplain : Plain cs := fun h => hcs (h.trans (List.suffix_cons c cs).isInfix)
    rw [List.cons_append, fillChars_cons hmark, ih hplain, List.cons_append]

theorem toList_fill (template : String) (values : List String) :
    (fill template values).toList = fillChars template.toList values :=
  String.toList_ofList

theorem fill_append {s rest : String} (hs : Plain s.toList) (hrest : rest.toList.head? ≠ some 's')
    (values : List String) : fill (s ++ rest) values = s ++ fill rest values := by
  apply String.toList_inj.1
  rw [toList_fill, String.toList_append, fillChars_append hs hrest, String.toList_append,
    toList_fill]

/-- The template takes just these values and becomes the text, whatever follows it. -/
def Fills (template : String) (values : List String) (text : String) : Prop :=
  ∀ (rest : String) (others : List String),
    fill (template ++ rest) (values ++ others) = text ++ fill rest others

namespace Fills

variable {template template' text text' : String} {values values' : List String}

theorem fill_eq (h : Fills template values text) : fill template values = text := by
  have hend : fill "" [] = "" := rfl
  simpa [hend] using h "" []

theorem empty : Fills "" [] "" := by
  intro rest others
  rw [String.empty_append, String.empty_append, List.nil_append]

theorem append (h : Fills template values text) (h' : Fills template' values' text') :
    Fills (template ++ template') (values ++ values') (text ++ text') := by
  intro rest others
  rw [String.append_assoc, List.append_assoc, h, h', String.append_assoc]

theorem mark (value : String) : Fills "%s" [value] value := by
  intro rest others
  apply String.toList_inj.1
  have hmark : ("%s" ++ rest).toList = '%' :: 's' :: rest.toList := by simp
  rw [toList_fill, hmark, List.singleton_append, fillChars, String.toList_append, toList_fill]

/-- A text without marks stays as it is, if what follows does not make a mark of its end. -/
theorem plain_append {s : String} (hs : Plain s.toList) {c : Char}
    (hc : template.toList.head? = some c) (hne : c ≠ 's') (h : Fills template values text) :
    Fills (s ++ template) values (s ++ text) := by
  intro rest others
  have hhead : (template ++ rest).toList.head? ≠ some 's' := by
    rw [String.toList_append, List.head?_append, hc, Option.some_or]
    simpa using hne
  rw [String.append_assoc, fill_append hs hhead, h, String.append_assoc]

theorem of_not_mem {s : String} (hs : '%' ∉ s.toList) : Fills s [] s := by
  intro rest others
  apply String.toList_inj.1
  rw [toList_fill, String.toList_append, List.nil_append, String.toList_append, toList_fill]
  generalize s.toList = cs at hs
  induction cs with
  | nil => rfl
  | cons c cs ih =>
    have hc : ¬ (c = '%' ∧ (cs ++ rest.toList).head? = some 's') :=
      fun hmark => hs (hmark.1 ▸ List.mem_cons_self)
    rw [List.cons_append, fillChars_cons hc, ih (List.not_mem_of_not_mem_cons hs),
      List.cons_append]

/-- The mark between two texts takes the value. -/
theorem between {a b : String} (ha : '%' ∉ a.toList) (hb : '%' ∉ b.toList) (value : String) :
    Fills (a ++ "%s" ++ b) [value] (a ++ value ++ b) :=
  ((of_not_mem ha).append (mark value)).append (of_not_mem hb)

/-- Phrases that each end with a mark take one value each. -/
theorem joinWith {sep : String} (hsep : '%' ∉ sep.toList) {phrases : List (String × String)}
    (hphrases : ∀ p ∈ phrases, '%' ∉ p.1.toList) :
    Fills (Text.joinWith sep (phrases.map fun p => p.1 ++ "%s")) (phrases.map (·.2))
      (Text.joinWith sep (phrases.map fun p => p.1 ++ p.2)) := by
  induction phrases with
  | nil => exact empty
  | cons p phrases ih =>
    obtain ⟨hp, hrest⟩ := List.forall_mem_cons.1 hphrases
    have hhead : Fills (p.1 ++ "%s") [p.2] (p.1 ++ p.2) := (of_not_mem hp).append (mark p.2)
    cases phrases with
    | nil => exact hhead
    | cons q phrases => exact (hhead.append (of_not_mem hsep)).append (ih hrest)

end Fills

end Template

/-! ## What is said of a verdict -/

namespace Verdict

/-- What is said of a feature that came late; `said` names the feature. -/
def late? (v : Verdict) (place : Place) (base said display : String) : Option Finding :=
  match v.absentIn, v.conditionalIn with
  | some version, _ => some {
      place
      severity := .error
      message := said ++ " is not present in PHP version " ++ version.text ++ " or earlier"
      code := base ++ "Found"
      data := [display, version.text] }
  | none, some (version, option) => some {
      place
      severity := .warning
      message := said ++ " is present in PHP version " ++ version.text ++
        " but will be disregarded unless PHP is compiled with " ++ option
      code := base ++ "ConditionalFound"
      data := [display, version.text, option] }
  | none, none => none

/-- What the range reaches of a deprecation and a removal, each with its version. -/
def losses (v : Verdict) : List (String × String) :=
  v.deprecatedIn.toList.map (fun d => ("deprecated since PHP ", d.text)) ++
    v.removedIn.toList.map (fun r => ("removed since PHP ", r.text))

/-- What is said of a feature that went; `said` names the feature. -/
def gone? (v : Verdict) (place : Place) (base said display : String)
    (alternative : Option String) : Option Finding :=
  if v.isWithdrawal then some {
      place
      severity := if v.removedIn.isSome then .error else .warning
      message := said ++ " is " ++ Text.joinWith " and " (v.losses.map fun t => t.1 ++ t.2) ++
        alternative.elim "" fun text => "; Use " ++ text ++ " instead"
      code := base ++ (if v.deprecatedIn.isSome then "Deprecated" else "") ++
        (if v.removedIn.isSome then "Removed" else "")
      data := display :: v.losses.map (·.2) ++ alternative.toList }
  else none

theorem percent_not_mem_losses (v : Verdict) : ∀ t ∈ v.losses, '%' ∉ t.1.toList := by
  intro t ht
  simp only [losses, List.mem_append, List.mem_map] at ht
  rcases ht with ⟨_, -, rfl⟩ | ⟨_, -, rfl⟩
  · simp
  · simp

end Verdict

namespace Wording

/-- The subject is `before`, the mark for the feature, and `after`, without further marks. -/
structure Marked (w : Wording) (before after : String) : Prop where
  subject : w.subject = before ++ "%s" ++ after
  before : Template.Plain before.toList
  after : Template.Plain after.toList

variable {w : Wording} {before after : String}

/-- The subject takes the feature's name, and what follows it takes the other values. -/
theorem Marked.fills (hw : w.Marked before after) (display : String) {template text : String}
    {values : List String} (hspace : template.toList.head? = some ' ')
    (h : Template.Fills template values text) :
    Template.Fills (w.subject ++ template) (display :: values)
      (before ++ display ++ after ++ text) := by
  have hrest : Template.Fills (after ++ template) values (after ++ text) :=
    .plain_append hw.after hspace (by decide) h
  have hmark : Template.Fills ("%s" ++ (after ++ template)) ([display] ++ values)
      (display ++ (after ++ text)) := (Template.Fills.mark display).append hrest
  rw [hw.subject, String.append_assoc, String.append_assoc, String.append_assoc,
    String.append_assoc]
  exact .plain_append hw.before (c := '%') (by simp) (by decide) hmark

theorem fills_absence (version : String) :
    Template.Fills " is not present in PHP version %s or earlier" [version]
      (" is not present in PHP version " ++ version ++ " or earlier") := by
  have htemplate : " is not present in PHP version %s or earlier" =
      " is not present in PHP version " ++ "%s" ++ " or earlier" := by decide
  rw [htemplate]
  exact .between (by simp) (by simp) version

theorem fills_condition (version option : String) :
    Template.Fills (" is present in PHP version %s but will be disregarded unless PHP is " ++
        "compiled with %s") [version, option]
      (" is present in PHP version " ++ version ++
        " but will be disregarded unless PHP is compiled with " ++ option) := by
  have htemplate : " is present in PHP version %s but will be disregarded unless PHP is " ++
        "compiled with %s" = " is present in PHP version " ++ "%s" ++
      " but will be disregarded unless PHP is compiled with " ++ "%s" := by decide
  have hversion : Template.Fills (" is present in PHP version " ++ "%s" ++
      " but will be disregarded unless PHP is compiled with ") [version] _ :=
    .between (by simp) (by simp) version
  rw [htemplate]
  exact hversion.append (.mark option)

theorem introduction?_eq_late? (hw : w.Marked before after) (place : Place)
    (base display : String) (v : Verdict) :
    w.introduction? place base display v =
      v.late? place base (before ++ display ++ after) display := by
  unfold introduction? Verdict.late?
  cases v.absentIn with
  | some version =>
    have hfill := (hw.fills display (by simp) (fills_absence version.text)).fill_eq
    simp only [Finding.ofTemplate, hfill, String.append_assoc]
  | none =>
    cases v.conditionalIn with
    | some conditional =>
      have hfill :=
        (hw.fills display (by simp) (fills_condition conditional.1.text conditional.2)).fill_eq
      simp only [String.append_assoc] at hfill
      simp only [Finding.ofTemplate, hfill, String.append_assoc]
    | none => rfl

theorem fills_alternative (alternative : Option String) :
    Template.Fills (if alternative.isSome then "; Use %s instead" else "") alternative.toList
      (alternative.elim "" fun text => "; Use " ++ text ++ " instead") := by
  cases alternative with
  | none => exact .empty
  | some text =>
    have htemplate : "; Use %s instead" = "; Use " ++ "%s" ++ " instead" := by decide
    rw [Option.isSome_some, if_pos rfl, htemplate]
    exact .between (by simp) (by simp) text

/-- The parts of a withdrawal are its losses with a mark for the version. -/
theorem withdrawalParts_eq_losses (v : Verdict) :
    (withdrawalParts v).map (·.1) = v.losses.map (fun t => t.1 ++ "%s") ∧
      (withdrawalParts v).map (·.2.1.text) = v.losses.map (·.2) ∧
      String.join ((withdrawalParts v).map (·.2.2)) =
        (if v.deprecatedIn.isSome then "Deprecated" else "") ++
          (if v.removedIn.isSome then "Removed" else "") := by
  have hdeprecated : "deprecated since PHP %s" = "deprecated since PHP " ++ "%s" := by decide
  have hremoved : "removed since PHP %s" = "removed since PHP " ++ "%s" := by decide
  unfold withdrawalParts Verdict.losses
  rw [hdeprecated, hremoved]
  cases v.deprecatedIn <;> cases v.removedIn <;> exact ⟨rfl, rfl, rfl⟩

theorem withdrawal?_eq_gone? (hw : w.Marked before after) (place : Place)
    (base display : String) (alternative : Option String) (v : Verdict) :
    w.withdrawal? place base display alternative v =
      v.gone? place base (before ++ display ++ after) display alternative := by
  obtain ⟨hphrases, hvalues, hcode⟩ := withdrawalParts_eq_losses v
  have hand : '%' ∉ " and ".toList := by simp
  have hlosses := Template.Fills.joinWith hand v.percent_not_mem_losses
  have his := Template.Fills.of_not_mem (s := " is ") (by simp)
  have hfill := (hw.fills display (by simp)
    ((his.append hlosses).append (fills_alternative alternative))).fill_eq
  simp only [String.append_assoc, List.nil_append] at hfill
  unfold withdrawal? Verdict.gone?
  cases v.isWithdrawal with
  | false => rfl
  | true =>
    simp only [Finding.ofTemplate, hphrases, hvalues, hcode, String.append_assoc,
      List.cons_append, hfill, if_true]

end Wording

end Vintage
