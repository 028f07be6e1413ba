import Almanac.Proofs.Format.Faults

namespace Almanac

theorem anyM_eq_some {α : Type} {p : α → Option Bool} {q : α → Bool} {as : List α}
    (h : ∀ a ∈ as, p a = some (q a)) :
    as.anyM p = some (as.any q) := by
  induction as with
  | nil => rfl
  | cons a as ih =>
    obtain ⟨ha, has⟩ := List.forall_mem_cons.1 h
    rw [List.anyM, ha, List.any_cons, ih has]
    cases q a <;> rfl

namespace Letter

variable {l fine coarse : Letter} {s wider : LetterSet} {pattern : String}

def DependsOn (fine coarse : Letter) : Prop := ∃ group ∈ fine.placers, coarse ∈ group

def roots : List Letter := [weekBasedYear, year, yearOfEra, era]

theorem placers_eq_nil_iff : l.placers = [] ↔ l ∈ roots := by
  cases l <;> decide

theorem DependsOn.rank_lt (h : fine.DependsOn coarse) : fine.rank < coarse.rank := by
  obtain ⟨group, hgroup, hcoarse⟩ := h
  exact rank_lt_of_mem_placers hgroup hcoarse

theorem rank_lt (l : Letter) : l.rank < 27 := by
  cases l <;> decide

@[simp] theorem not_dependsOn_era (l : Letter) : ¬ l.DependsOn era := by
  unfold DependsOn
  cases l <;> decide

/-- What holds of a letter as soon as it holds of all that the letter depends on holds of every
letter. -/
theorem induction_coarser {P : Letter → Prop}
    (step : ∀ l, (∀ coarse, l.DependsOn coarse → P coarse) → P l) (l : Letter) : P l := by
  -- On the number of ranks above the letter.
  induction hn : 27 - l.rank using Nat.strong_induction_on generalizing l with
  | _ n ih =>
    refine step l fun coarse hdepends ↦ ih (27 - coarse.rank) ?_ coarse rfl
    have hcoarser := hdepends.rank_lt
    have hlast := coarse.rank_lt
    omega

theorem isPlacedBy_iff_dependsOn :
    l.isPlacedBy s ↔ l ∈ roots ∨
    ∃ coarse, l.DependsOn coarse ∧ coarse ∈ s ∧ coarse.isPlacedBy s := by
  rw [isPlacedBy_iff, placers_eq_nil_iff]
  refine or_congr_right ⟨?_, ?_⟩
  · rintro ⟨group, hgroup, coarse, hcoarse, hplaced⟩
    exact ⟨coarse, ⟨group, hgroup, hcoarse⟩, hplaced⟩
  · rintro ⟨coarse, ⟨group, hgroup, hcoarse⟩, hplaced⟩
    exact ⟨group, hgroup, coarse, hcoarse, hplaced⟩

/-- A letter is placed just if a chain of letters of the set leads from it to one that needs no
other, where each places the one before. -/
theorem isPlacedBy_iff_chain :
    l.isPlacedBy s ↔
    ∃ coarser : List Letter, (∀ c ∈ coarser, c ∈ s) ∧ (l :: coarser).IsChain DependsOn ∧
    (l :: coarser).getLast (List.cons_ne_nil l coarser) ∈ roots := by
  constructor
  · induction l using induction_coarser with
    | step l ih =>
      intro h
      rcases isPlacedBy_iff_dependsOn.1 h with hroot | ⟨coarse, hdepends, hmem, hplaced⟩
      · exact ⟨[], by simp, .singleton l, hroot⟩
      · obtain ⟨coarser, hpresent, hchain, hlast⟩ := ih coarse hdepends hplaced
        exact ⟨coarse :: coarser, List.forall_mem_cons.2 ⟨hmem, hpresent⟩,
          List.isChain_cons_cons.2 ⟨hdepends, hchain⟩, hlast⟩
  · rintro ⟨coarser, hpresent, hchain, hlast⟩
    refine isPlacedBy_of_isChain coarser
      (hchain.imp_of_mem_tail_imp fun fine coarse _ hcoarse hdepends ↦ ?_)
      (placers_eq_nil_iff.2 hlast)
    exact ⟨hpresent coarse hcoarse, hdepends⟩

theorem isPlacedBy_mono (h : l.isPlacedBy s) (hs : ∀ c ∈ s, c ∈ wider) : l.isPlacedBy wider := by
  obtain ⟨coarser, hpresent, hchain⟩ := isPlacedBy_iff_chain.1 h
  exact isPlacedBy_iff_chain.2 ⟨coarser, fun c hc ↦ hs c (hpresent c hc), hchain⟩

theorem exists_year_of_isPlacedBy (h : l.isPlacedBy s) (hmem : l ∈ s) (hl : l ≠ era) :
    ∃ y ∈ [weekBasedYear, year, yearOfEra], y ∈ s := by
  induction l using induction_coarser with
  | step l ih =>
    rcases isPlacedBy_iff_dependsOn.1 h with hroot | ⟨coarse, hdepends, hcoarse, hplaced⟩
    · refine ⟨l, ?_, hmem⟩
      simpa [roots, hl] using hroot
    · refine ih coarse hdepends hplaced hcoarse ?_
      rintro rfl
      exact not_dependsOn_era l hdepends

/-- The search for letters that place a letter, given up where it goes deeper than so many
letters. -/
def searchWithin? (s : LetterSet) : Nat → Letter → Option Bool
  | 0, _ => none
  | depth + 1, l =>
    if l.placers.isEmpty then some true
    else l.placers.anyM fun group ↦ group.anyM fun coarse ↦
      if s.contains coarse then searchWithin? s depth coarse else some false

theorem isPlacedBy_eq (l : Letter) (s : LetterSet) :
    l.isPlacedBy s = (l.placers.isEmpty || l.placers.any fun group ↦
    group.any fun coarse ↦ s.contains coarse && coarse.isPlacedBy s) := by
  rw [isPlacedBy]
  simp

/-- The search ends: no more letters stand one behind the other on its way than there are ranks. -/
theorem searchWithin?_eq {depth : Nat} (h : 27 ≤ depth + l.rank) :
    searchWithin? s depth l = some (l.isPlacedBy s) := by
  induction depth generalizing l with
  | zero =>
    have hlast := l.rank_lt
    omega
  | succ depth ih =>
    rw [searchWithin?, isPlacedBy_eq]
    split
    · rename_i hroot
      rw [hroot, Bool.true_or]
    · rename_i hroot
      rw [Bool.not_eq_true] at hroot
      rw [hroot, Bool.false_or]
      refine anyM_eq_some fun group hgroup ↦ anyM_eq_some fun coarse hcoarse ↦ ?_
      have hcoarser := rank_lt_of_mem_placers hgroup hcoarse
      split
      · rename_i hmem
        rw [hmem, Bool.true_and]
        exact ih (by omega)
      · rename_i hmem
        rw [Bool.not_eq_true] at hmem
        rw [hmem, Bool.false_and]

def IsFinest (pattern : String) (l : Letter) : Prop :=
  l.Unquoted false pattern.toList ∧
    ∀ other : Letter, other.Unquoted false pattern.toList → l.rank ≤ other.rank

/-- A chain of letters of a text outside quotes leads from a letter to a year or the era, where each
places the one before. -/
def Anchored (pattern : String) (l : Letter) : Prop :=
  ∃ coarser : List Letter, (∀ c ∈ l :: coarser, c.Unquoted false pattern.toList) ∧
    (l :: coarser).IsChain DependsOn ∧
    (l :: coarser).getLast (List.cons_ne_nil l coarser) ∈ roots

theorem mem_ofPattern : l ∈ LetterSet.ofPattern pattern ↔ l.Unquoted false pattern.toList :=
  LetterSet.mem_ofList.trans LetterSet.mem_scan_iff

theorem isFinest_iff : l.IsFinest pattern ↔ (LetterSet.ofPattern pattern).lowest? = some l := by
  simp only [IsFinest, LetterSet.lowest?_eq_some_iff, mem_ofPattern]

theorem anchored_iff (h : l.Unquoted false pattern.toList) :
    l.Anchored pattern ↔ l.isPlacedBy (.ofPattern pattern) := by
  rw [isPlacedBy_iff_chain]
  simp only [Anchored, mem_ofPattern, List.forall_mem_cons, h, true_and]

end Letter

theorem Format.compile_ne_unplaced (pattern : String) (c : Char) :
    compile pattern ≠ .error ⟨pattern, .unplaced c⟩ := by
  intro h
  have hverdict := verdict_of_pattern pattern
  rw [compile] at h
  cases hm : (Item.ofPattern pattern.toList).mapM Item.piece with
  | ok pieces => rw [hm] at h; cases h
  | error fault =>
    rw [hm] at h hverdict
    cases h
    obtain ⟨before, back, -, hfault, -⟩ : FirstFault [] pattern.toList (.unplaced c) := hverdict
    cases hfault

namespace NamePattern

variable {pattern : String} {lowest : Letter}

theorem compile_eq_unplaced (hl : (LetterSet.ofPattern pattern).lowest? = some lowest)
    (hp : ¬ lowest.isPlacedBy (.ofPattern pattern)) :
    compile pattern = .error ⟨pattern, .unplaced lowest.toChar⟩ := by
  unfold compile
  simp only [hl, if_neg hp]

theorem compile_ne_unplaced (hl : (LetterSet.ofPattern pattern).lowest? = some lowest)
    (hp : lowest.isPlacedBy (.ofPattern pattern)) (c : Char) :
    compile pattern ≠ .error ⟨pattern, .unplaced c⟩ := by
  intro h
  cases hf : Format.compile pattern with
  | ok format =>
    rw [compile_eq hl hp hf] at h
    cases h
  | error e =>
    unfold compile at h
    simp only [hl, if_pos hp, hf] at h
    cases h
    exact Format.compile_ne_unplaced pattern c hf

/-- A pattern that compiles as a format and has a letter outside quotes is one of names just if its
finest letter is anchored, and else the error names that letter. The search that decides this ends
for every set of letters. All accepted patterns but those of the era alone have a letter for the
year, and stay accepted with more letters that are coarser than their finest, unless these are at
fault themselves. -/
theorem compiled_iff_anchored (pattern : String) :
    (∀ (f : Format) (letter : Letter), Format.compile pattern = .ok f →
      letter.Unquoted false pattern.toList →
      ∃ lowest : Letter, lowest.IsFinest pattern ∧
        ((∃ p, compile pattern = .ok p) ↔ lowest.Anchored pattern) ∧
        (∀ p, compile pattern = .ok p → p.lowest = lowest ∧ p.format = f) ∧
        (¬ lowest.Anchored pattern →
          compile pattern = .error ⟨pattern, .unplaced lowest.toChar⟩)) ∧
    (∀ (s : LetterSet) (l : Letter) (depth : Nat), 27 ≤ depth →
      l.searchWithin? s depth = some (l.isPlacedBy s)) ∧
    ∀ p, compile pattern = .ok p →
      (p.lowest ≠ .era →
        ∃ y : Letter, y ∈ [.weekBasedYear, .year, .yearOfEra] ∧
          y.Unquoted false pattern.toList) ∧
      ∀ wider : String,
        (∀ l : Letter, l.Unquoted false pattern.toList → l.Unquoted false wider.toList) →
        (∀ l : Letter, l.Unquoted false wider.toList →
          l.Unquoted false pattern.toList ∨ p.lowest.rank < l.rank) →
        (∀ c, compile wider ≠ .error ⟨wider, .unplaced c⟩) ∧
        ∀ f, Format.compile wider = .ok f →
          compile wider = .ok ⟨p.lowest, .ofPattern wider, f⟩ := by
  refine ⟨fun f letter hf hletter ↦ ?_,
    fun s l depth hdepth ↦ Letter.searchWithin?_eq (by omega), fun p hp ↦ ?_⟩
  · obtain ⟨lowest, hlowest⟩ := LetterSet.exists_lowest? (Letter.mem_ofPattern.2 hletter)
    have hfinest := Letter.isFinest_iff.2 hlowest
    have hanchored := Letter.anchored_iff hfinest.1
    refine ⟨lowest, hfinest, ?_⟩
    by_cases hplaced : lowest.isPlacedBy (.ofPattern pattern)
    · have hcompiled := compile_eq hlowest hplaced hf
      refine ⟨iff_of_true ⟨_, hcompiled⟩ (hanchored.2 hplaced), fun p hp ↦ ?_,
        absurd (hanchored.2 hplaced)⟩
      obtain rfl := Except.ok.inj (hcompiled.symm.trans hp)
      exact ⟨rfl, rfl⟩
    · have hrefused := compile_eq_unplaced hlowest hplaced
      refine ⟨iff_of_false ?_ (mt hanchored.1 hplaced), fun p hp ↦ ?_, fun _ ↦ hrefused⟩
      · rintro ⟨p, hp⟩
        cases hrefused.symm.trans hp
      · cases hrefused.symm.trans hp
  · obtain ⟨hformat, hletters, hlowest⟩ := of_compile hp
    have hplaced := isPlacedBy_of_compile hp
    rw [hletters, Format.letters_eq_ofPattern hformat] at hlowest hplaced
    have hfinest := Letter.isFinest_iff.2 hlowest
    refine ⟨fun hera ↦ ?_, fun wider hmore hcoarser ↦ ?_⟩
    · obtain ⟨y, hy, hmem⟩ :=
        Letter.exists_year_of_isPlacedBy hplaced (LetterSet.mem_of_lowest? hlowest) hera
      exact ⟨y, hy, Letter.mem_ofPattern.1 hmem⟩
    · have hstill : p.lowest.IsFinest wider :=
        ⟨hmore _ hfinest.1, fun l hl ↦ (hcoarser l hl).elim (hfinest.2 l) Nat.le_of_lt⟩
      have hplaced := Letter.isPlacedBy_mono hplaced fun l hl ↦
        Letter.mem_ofPattern.2 (hmore l (Letter.mem_ofPattern.1 hl))
      exact ⟨compile_ne_unplaced (Letter.isFinest_iff.1 hstill) hplaced,
        fun f ↦ compile_eq (Letter.isFinest_iff.1 hstill) hplaced⟩

/-- An hour counted from noon is anchored by its half of the day, the weekday, the week and the
year. Era and month beside them do no harm, but once the half-day is quoted nothing places the
hour. -/
theorem hour_anchored_by_half_day :
    let f : Format :=
      ⟨"uuuuweha", [.number .year 4 10, .number .weekOfWeekBasedYear 1 2,
        .number .localizedDayOfWeek 1 1, .number .clockHourOfAmPm 1 2,
        .name .amPmOfDay Letter.halfDays 0]⟩
    compile "uuuuweha" = .ok ⟨.clockHourOfAmPm, .ofPattern "uuuuweha", f⟩ ∧
      Letter.clockHourOfAmPm.Anchored "uuuuweha" ∧
      (∀ c, compile "GMuuuuweha" ≠ .error ⟨"GMuuuuweha", .unplaced c⟩) ∧
      compile "uuuuweh'a'" = .error ⟨"uuuuweh'a'", .unplaced 'h'⟩ := by
  intro f
  obtain ⟨haccepted, hsearch, hmore⟩ := compiled_iff_anchored "uuuuweha"
  obtain ⟨hrefused, -, -⟩ := compiled_iff_anchored "uuuuweh'a'"
  let quoted : Format := ⟨"uuuuweh'a'", [.number .year 4 10, .number .weekOfWeekBasedYear 1 2,
    .number .localizedDayOfWeek 1 1, .number .clockHourOfAmPm 1 2, .literal ['a']]⟩
  have hf : Format.compile "uuuuweha" = .ok f := by decide
  have hquoted : Format.compile "uuuuweh'a'" = .ok quoted := by decide
  have hfinest : Letter.clockHourOfAmPm.IsFinest "uuuuweha" := Letter.isFinest_iff.2 (by decide)
  have hfinest' : Letter.clockHourOfAmPm.IsFinest "uuuuweh'a'" := Letter.isFinest_iff.2 (by decide)
  have hplaced : Letter.clockHourOfAmPm.isPlacedBy (.ofPattern "uuuuweha") = true :=
    Option.some.inj ((hsearch _ _ 27 (by decide)).symm.trans (by decide))
  have hunplaced : Letter.clockHourOfAmPm.isPlacedBy (.ofPattern "uuuuweh'a'") = false :=
    Option.some.inj ((hsearch _ _ 27 (by decide)).symm.trans (by decide))
  have hcompiled := compile_eq (Letter.isFinest_iff.1 hfinest) hplaced hf
  have hanchored := (Letter.anchored_iff hfinest.1).2 hplaced
  refine ⟨hcompiled, hanchored, ((hmore _ hcompiled).2 _ (fun l ↦ ?_) fun l ↦ ?_).1, ?_⟩
  · rw [← Letter.mem_ofPattern, ← Letter.mem_ofPattern]
    cases l <;> decide
  · rw [← Letter.mem_ofPattern, ← Letter.mem_ofPattern]
    cases l <;> decide
  · obtain ⟨lowest, hleast, -, -, herror⟩ := hrefused quoted _ hquoted hfinest'.1
    obtain rfl := Letter.rank_inj (Nat.le_antisymm (hfinest'.2 _ hleast.1) (hleast.2 _ hfinest'.1))
    exact herror fun h ↦
      Bool.false_ne_true (hunplaced.symm.trans ((Letter.anchored_iff hleast.1).1 h))

end NamePattern

end Almanac
