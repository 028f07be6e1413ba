import Almanac.Resolver
import Mathlib.Data.List.Infix
import Mathlib.Logic.ExistsUnique

namespace Almanac.Resolver

def bars : List Char := ['|', '|']

section Bars

variable {c : Char} {cs date suffix : List Char}

theorem splitBars?_cons (h : ¬ bars <+: c :: cs) :
    splitBars? (c :: cs) = (splitBars? cs).map fun (date, suffix) ↦ (c :: date, suffix) := by
  refine splitBars?.eq_3 _ _ ?_
  rintro suffix rfl rfl
  exact h ⟨suffix, rfl⟩

theorem bars_prefix_cons_iff :
    bars <+: c :: (date ++ ['|']) ↔ bars <+: c :: (date ++ bars ++ suffix) := by
  cases date <;> simp [bars]

/-- Splitting is at the first two bars: the date and the bar behind it hold no two bars. -/
theorem splitBars?_eq_some_iff :
    splitBars? cs = some (date, suffix) ↔ cs = date ++ bars ++ suffix ∧
    ¬ bars <:+: date ++ ['|'] := by
  constructor
  · intro h
    induction cs using splitBars?.induct generalizing date with
    | case1 => cases h
    | case2 suffix =>
      obtain ⟨rfl, rfl⟩ := Prod.mk.inj (Option.some.inj h)
      exact ⟨rfl, by decide⟩
    | case3 c cs hbars ih =>
      have hhere : ¬ bars <+: c :: cs := by
        rintro ⟨suffix, hcons⟩
        exact hbars suffix (List.cons.inj hcons).1.symm (List.cons.inj hcons).2.symm
      rw [splitBars?_cons hhere, Option.map_eq_some_iff] at h
      obtain ⟨⟨before, after⟩, hsplit, hsome⟩ := h
      obtain ⟨rfl, rfl⟩ := Prod.mk.inj hsome
      obtain ⟨rfl, hfirst⟩ := ih hsplit
      refine ⟨rfl, fun hinfix ↦ ?_⟩
      rcases List.infix_cons_iff.1 hinfix with hprefix | hlater
      · exact hhere (bars_prefix_cons_iff.1 hprefix)
      · exact hfirst hlater
  · rintro ⟨rfl, hfirst⟩
    induction date with
    | nil => rfl
    | cons c date ih =>
      obtain ⟨hhere, hlater⟩ := not_or.1 (mt List.infix_cons_iff.2 hfirst)
      change splitBars? (c :: (date ++ bars ++ suffix)) = _
      rw [splitBars?_cons (mt bars_prefix_cons_iff.2 hhere), ih hlater]
      rfl

theorem splitBars?_eq_none_iff : splitBars? cs = none ↔ ¬ bars <:+: cs := by
  refine ⟨?_, fun h ↦ ?_⟩
  · intro h hinfix
    induction cs with
    | nil => simp [bars] at hinfix
    | cons c cs ih =>
      by_cases hhere : bars <+: c :: cs
      · obtain ⟨suffix, hcons⟩ := hhere
        rw [← hcons] at h
        cases h
      · rw [splitBars?_cons hhere, Option.map_eq_none_iff] at h
        exact ih h ((List.infix_cons_iff.1 hinfix).resolve_left hhere)
  · refine Option.eq_none_iff_forall_ne_some.2 fun parts hsome ↦ h ?_
    exact ⟨parts.1, parts.2, (splitBars?_eq_some_iff.1 hsome).1.symm⟩

theorem not_bars_infix_of_not_mem (h : '|' ∉ date) : ¬ bars <:+: date ++ ['|'] := by
  rintro ⟨before, after, hsplit⟩
  have hcount := congrArg (List.count '|') hsplit
  rw [List.count_append, List.count_append, List.count_append, List.count_eq_zero.2 h,
    show List.count '|' bars = 2 from rfl, show List.count '|' ['|'] = 1 from rfl] at hcount
  omega

end Bars

/-- The parts of an expression: the date it is anchored at, if that is not now, and the suffix. -/
inductive Splits (token : String) : String → Option String → String → Prop
  | now {suffix : String} : Splits token (token ++ suffix) none suffix
  | dated {date suffix : String} : ¬ token.toList <+: (date ++ "||" ++ suffix).toList →
      ¬ bars <:+: date.toList ++ ['|'] → Splits token (date ++ "||" ++ suffix) (some date) suffix
  | bare {date : String} : ¬ token.toList <+: date.toList → ¬ bars <:+: date.toList →
      Splits token date (some date) ""

variable {token expression date suffix : String} {settings : Settings} {r : Resolver}

theorem Splits.isPrefixOf? (h : Splits token expression none suffix) :
    token.toList.isPrefixOf? expression.toList = some suffix.toList := by
  cases h with
  | now => exact List.isPrefixOf?_eq_some_iff_append_eq.2 String.toList_append.symm

theorem isPrefixOf?_eq_none (h : ¬ token.toList <+: expression.toList) :
    token.toList.isPrefixOf? expression.toList = none :=
  Option.eq_none_iff_forall_ne_some.2 fun rest hrest ↦
    h ⟨rest, List.isPrefixOf?_eq_some_iff_append_eq.1 hrest⟩

theorem Splits.not_prefix (h : Splits token expression (some date) suffix) :
    ¬ token.toList <+: expression.toList := by
  cases h with
  | dated htoken _ => exact htoken
  | bare htoken _ => exact htoken

theorem Splits.splitBars? (h : Splits token expression (some date) suffix) :
    (Resolver.splitBars? expression.toList).getD (expression.toList, []) =
    (date.toList, suffix.toList) := by
  cases h with
  | dated _ hfirst =>
    have happend : (date ++ "||" ++ suffix).toList = date.toList ++ bars ++ suffix.toList := by
      rw [String.toList_append, String.toList_append]
      rfl
    rw [splitBars?_eq_some_iff.2 ⟨happend, hfirst⟩, Option.getD_some]
  | bare _ hbars =>
    rw [splitBars?_eq_none_iff.2 hbars, Option.getD_none]
    rfl

theorem exists_splits (token expression : String) :
    ∃ anchor suffix, Splits token expression anchor suffix := by
  by_cases htoken : token.toList <+: expression.toList
  · obtain ⟨suffix, happend⟩ := htoken
    have hexp : expression = token ++ String.ofList suffix :=
      String.toList_injective (by simp [happend])
    exact ⟨none, String.ofList suffix, hexp ▸ .now⟩
  · cases hsplit : Resolver.splitBars? expression.toList with
    | none => exact ⟨some expression, "", .bare htoken (splitBars?_eq_none_iff.1 hsplit)⟩
    | some parts =>
      obtain ⟨happend, hfirst⟩ := splitBars?_eq_some_iff.1 hsplit
      have hexp : expression = String.ofList parts.1 ++ "||" ++ String.ofList parts.2 :=
        String.toList_injective (by simpa [bars] using happend)
      refine ⟨some (String.ofList parts.1), String.ofList parts.2, ?_⟩
      rw [hexp] at htoken ⊢
      exact .dated htoken (by simpa using hfirst)

theorem Splits.eq {anchor anchor' : Option String} {suffix' : String}
    (h : Splits token expression anchor suffix)
    (h' : Splits token expression anchor' suffix') : anchor = anchor' ∧ suffix = suffix' := by
  cases anchor with
  | none =>
    cases anchor' with
    | none =>
      have hsuffix := Option.some.inj (h.isPrefixOf?.symm.trans h'.isPrefixOf?)
      exact ⟨rfl, String.toList_injective hsuffix⟩
    | some date' => cases h.isPrefixOf?.symm.trans (isPrefixOf?_eq_none h'.not_prefix)
  | some date =>
    cases anchor' with
    | none => cases h'.isPrefixOf?.symm.trans (isPrefixOf?_eq_none h.not_prefix)
    | some date' =>
      obtain ⟨hdate, hsuffix⟩ := Prod.mk.inj (h.splitBars?.symm.trans h'.splitBars?)
      exact ⟨congrArg some (String.toList_injective hdate), String.toList_injective hsuffix⟩

theorem resolve_of_splits_now (h : Splits r.settings.nowToken expression none suffix) :
    r.resolve expression = applyMath suffix.toList r.settings.nowInZone := by
  simp only [resolve, start, h.isPrefixOf?]
  rfl

theorem resolve_of_splits_date (h : Splits r.settings.nowToken expression (some date) suffix) :
    r.resolve expression = r.anchor date >>= applyMath suffix.toList := by
  simp only [resolve, start, isPrefixOf?_eq_none h.not_prefix, h.splitBars?, String.ofList_toList]
  cases r.anchor date <;> rfl

theorem of_compile (h : compile settings = .ok r) :
    r.settings = settings ∧ Format.compile settings.pattern = .ok r.format := by
  unfold compile at h
  cases hf : Format.compile settings.pattern with
  | error cause => rw [hf] at h; cases h
  | ok f =>
    rw [hf] at h
    obtain rfl := Except.ok.inj h
    exact ⟨rfl, rfl⟩

/-- An expression has one anchor and one suffix. Anchored at now, it resolves to what the suffix
makes of now, whatever the pattern of dates is. Anchored at a date, it resolves to what the suffix
makes of that date, or fails for the date before the suffix is looked at, whatever the clock
says. -/
theorem resolve_by_split (hr : compile settings = .ok r) (expression : String) :
    (∃! split : Option String × String, Splits settings.nowToken expression split.1 split.2) ∧
    (∀ suffix, expression = settings.nowToken ++ suffix →
      r.resolve expression = applyMath suffix.toList settings.nowInZone ∧
      ∀ pattern other, compile { settings with pattern } = .ok other →
        other.resolve expression = r.resolve expression) ∧
    (¬ settings.nowToken.toList <+: expression.toList →
      (∀ date suffix, expression = date ++ "||" ++ suffix → '|' ∉ date.toList →
        Splits settings.nowToken expression (some date) suffix) ∧
      (¬ bars <:+: expression.toList → Splits settings.nowToken expression (some expression) "") ∧
      (∀ date suffix, Splits settings.nowToken expression (some date) suffix →
        (∀ t, (r.format.read date >>= (·.place settings.zone)) = .ok t →
          r.resolve expression = applyMath suffix.toList t) ∧
        ∀ cause, (r.format.read date >>= (·.place settings.zone)) = .error cause →
          r.resolve expression = .error (.invalidDate date settings.pattern cause)) ∧
      ∀ now other, compile { settings with now } = .ok other →
        other.resolve expression = r.resolve expression) := by
  obtain ⟨rfl, hf⟩ := of_compile hr
  obtain ⟨anchor, suffix, hsplit⟩ := exists_splits r.settings.nowToken expression
  refine ⟨⟨(anchor, suffix), hsplit,
    fun other hother ↦ Prod.ext (hother.eq hsplit).1 (hother.eq hsplit).2⟩, ?_, ?_⟩
  · rintro suffix rfl
    refine ⟨resolve_of_splits_now .now, fun pattern other hother ↦ ?_⟩
    obtain ⟨hsettings, -⟩ := of_compile hother
    have hnow : Splits other.settings.nowToken (r.settings.nowToken ++ suffix) none suffix :=
      hsettings ▸ .now
    rw [resolve_of_splits_now hnow, resolve_of_splits_now .now, hsettings]
    rfl
  · intro htoken
    refine ⟨?_, Splits.bare htoken, ?_, ?_⟩
    · rintro date suffix rfl hdate
      exact .dated htoken (not_bars_infix_of_not_mem hdate)
    · intro date suffix hdate
      rw [resolve_of_splits_date hdate, Resolver.anchor]
      refine ⟨fun t ht ↦ ?_, fun cause hcause ↦ ?_⟩
      · rw [ht]
        rfl
      · rw [hcause]
        rfl
    · intro now other hother
      obtain ⟨hsettings, hformat⟩ := of_compile hother
      obtain hformat : other.format = r.format := Except.ok.inj (hformat.symm.trans hf)
      cases anchor with
      | none =>
        have hprefix := List.isPrefixOf?_eq_some_iff_append_eq.1 hsplit.isPrefixOf?
        exact absurd ⟨_, hprefix⟩ htoken
      | some date =>
        have hdate : Splits other.settings.nowToken expression (some date) suffix :=
          hsettings ▸ hsplit
        rw [resolve_of_splits_date hdate, resolve_of_splits_date hsplit, Resolver.anchor,
          Resolver.anchor, hsettings,
          hformat]

theorem resolve_two_digit_year :
    let settings : Settings := ⟨"yyyy", .utc, ⟨1704067200, 0⟩, "now"⟩
    let r : Resolver := ⟨settings, ⟨"yyyy", [.number .yearOfEra 4 10]⟩⟩
    compile settings = .ok r ∧
      r.resolve "24||nonsense" = .error (.invalidDate "24" "yyyy" (.mismatch 0 .digits)) ∧
      r.resolve "now||+1d" = applyMath "||+1d".toList ⟨.utc, ⟨1704067200, 0⟩⟩ := by
  intro settings r
  have hr : compile settings = .ok r := by decide
  obtain ⟨-, -, hdate⟩ := resolve_by_split hr "24||nonsense"
  obtain ⟨hsplit, -, hresolve, -⟩ := hdate (by decide)
  obtain ⟨-, hfails⟩ := hresolve "24" "nonsense" (hsplit _ _ rfl (by decide))
  exact ⟨hr, hfails (.mismatch 0 .digits) (by decide), ((resolve_by_split hr _).2.1 "||+1d" rfl).1⟩

end Almanac.Resolver
