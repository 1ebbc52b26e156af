import ResourceComposition.Proofs.Binding
import ResourceComposition.Proofs.Fallback

/-!
# Templates and resources correspond

If the names of the templates tell them apart and a reference always leads to the same resource,
matching by name is a correspondence: each template gets the reference whose resource names it, if
there is one, and no reference is given out twice. In which order the templates stand makes no
difference (`byName_corresponds`).

What the templates get is known from the record of the calls, by the reference read last for each
name. That the order of the templates makes no difference to the record is an argument about two
runs. Two programs are alike if they make the same calls and, whatever the replies, come to results
that are alike (`Program.Alike`). Matching by name with the templates in two orders is alike, turn
by turn, as long as the bindings of both agree on what each template gets (`Matches`).
-/

namespace ResourceComposition

/-! ### Programs that are alike -/

namespace Program

variable {α β γ δ : Type}

/-- Two programs make the same calls, whatever the replies, and their results are alike. -/
inductive Alike (alike : α → β → Prop) : Program α → Program β → Prop where
  /-- Both are done. -/
  | done {a : α} {b : β} : alike a b → Alike alike (.done a) (.done b)
  /-- Both make a call, and go on alike after each reply to it. -/
  | call {request : Call} {resume : request.Reply → Program α}
      {resume' : request.Reply → Program β} :
      (∀ reply, Alike alike (resume reply) (resume' reply)) →
      Alike alike (.call request resume) (.call request resume')

variable {alike : α → β → Prop} {alike' : γ → δ → Prop}

theorem Alike.bind {p : Program α} {q : Program β} {f : α → Program γ} {g : β → Program δ}
    (h : Alike alike p q) (hfg : ∀ a b, alike a b → Alike alike' (f a) (g b)) :
    Alike alike' (p.bind f) (q.bind g) := by
  induction h with
  | done hab => exact hfg _ _ hab
  | call _ ih => exact .call ih

theorem alike_self (p : Program α) : Alike (· = ·) p p := by
  induction p with
  | done a => exact .done rfl
  | call request resume ih => exact .call ih

/-- Programs that are alike do the same in every world, and come to results that are alike. -/
theorem Alike.run {σ : Type} {p : Program α} {q : Program β} (h : Alike alike p q)
    (handler : Handler σ) (s : σ) :
    alike (p.run handler s).1 (q.run handler s).1 ∧ (p.run handler s).2 = (q.run handler s).2 := by
  induction h generalizing s with
  | done hab => exact ⟨hab, rfl⟩
  | call _ ih => exact ih _ _

end Program

namespace Attempt

variable {α β γ δ : Type} {alike : α → β → Prop} {alike' : γ → δ → Prop}

/-- Ends that are alike: both in success, with results that are alike, or both in the same error. -/
def EndsAlike (alike : α → β → Prop) : Except CompositionError α → Except CompositionError β → Prop
  | .ok a, .ok b => alike a b
  | .error e, .error e' => e = e'
  | _, _ => False

/-- Two attempts make the same calls, whatever the replies, and end alike. -/
def Alike (alike : α → β → Prop) (p : Attempt α) (q : Attempt β) : Prop :=
  Program.Alike (EndsAlike alike) p.run q.run

theorem alike_pure {a : α} {b : β} (h : alike a b) : Alike alike (pure a) (pure b) := .done h

theorem Alike.bind {p : Attempt α} {q : Attempt β} {f : α → Attempt γ} {g : β → Attempt δ}
    (h : p.Alike alike q) (hfg : ∀ a b, alike a b → (f a).Alike alike' (g b)) :
    (p >>= f).Alike alike' (q >>= g) := by
  refine Program.Alike.bind h fun a b hab => ?_
  cases a with
  | ok a =>
    cases b with
    | ok b => exact hfg a b hab
    | error e => exact hab.elim
  | error e =>
    cases b with
    | ok b => exact hab.elim
    | error e' => exact .done hab

/-- The same attempt, after which there are two ways to go on. -/
theorem alike_bind {p : Attempt α} {f : α → Attempt γ} {g : α → Attempt δ}
    (h : ∀ a, (f a).Alike alike' (g a)) : (p >>= f).Alike alike' (p >>= g) := by
  refine Program.Alike.bind (Program.alike_self p.run) ?_
  rintro (e | a) _ rfl
  · exact .done rfl
  · exact h a

end Attempt

namespace Association

/-! ### Templates in another order -/

variable {composite : Resource} {templates templates' : List Template} {reference : Reference}
  {references : List Reference} {bound bound' fallback fallback' : List Association}

/-- Bindings of templates in two orders agree on what each template gets. -/
def Matches (templates templates' : List Template) (bound bound' : List Association) : Prop :=
  ∃ found : Template → Option Reference,
    bound = templates.map (fun t => ⟨t, found t⟩) ∧ bound' = templates'.map (fun t => ⟨t, found t⟩)

theorem byOrder_nil_eq_map (templates : List Template) :
    byOrder templates [] = templates.map fun t => ⟨t, none⟩ := by
  induction templates with
  | nil => rfl
  | cons t rest ih => rw [byOrder, ih, List.map_cons]

section

variable (hnames : (templates.map (·.name)).Nodup) (hperm : templates'.Perm templates)

include hnames hperm

/-- A name is bound in both orders, and to the same template, or in none. -/
theorem Matches.bindName (h : Matches templates templates' bound bound') (name : String)
    (reference : Reference) :
    Option.Rel (Matches templates templates') (bindName name reference bound)
      (bindName name reference bound') := by
  obtain ⟨found, rfl, rfl⟩ := h
  have hmap := hperm.map (·.name)
  rw [bindName_map hnames, bindName_map (hmap.nodup_iff.mpr hnames)]
  by_cases hmem : some name ∈ templates.map (·.name)
  · rw [if_pos hmem, if_pos (hmap.mem_iff.mpr hmem)]
    exact .some ⟨_, rfl, rfl⟩
  · rw [if_neg hmem, if_neg (mt hmap.mem_iff.mp hmem)]
    exact .none

theorem turn_alike (h : Matches templates templates' bound bound') :
    (turn composite reference bound).Alike (Option.Rel (Matches templates templates'))
      (turn composite reference bound') := by
  refine Attempt.alike_bind fun object? => ?_
  cases object? with
  | none => exact Attempt.alike_pure (.some h)
  | some r =>
    dsimp only
    cases r.templateName? with
    | none => exact Attempt.alike_pure .none
    | some name =>
      dsimp only
      have hbind := h.bindName hnames hperm name reference
      revert hbind
      cases bindName name reference bound <;> cases bindName name reference bound' <;> intro hbind
      · -- The template is gone in both orders.
        dsimp only
        split
        · exact Attempt.alike_bind fun _ => Attempt.alike_pure (.some h)
        · exact Attempt.alike_pure (.some h)
      · cases hbind
      · cases hbind
      · exact Attempt.alike_pure hbind

theorem collect_alike (h : Matches templates templates' bound bound') :
    (collect composite fallback references bound).Alike (fun _ _ => True)
      (collect composite fallback' references bound') := by
  induction references generalizing bound bound' with
  | nil => exact Attempt.alike_pure trivial
  | cons reference rest ih =>
    rw [collect_cons, collect_cons]
    refine (turn_alike hnames hperm h).bind ?_
    rintro _ _ (hmore | _)
    · exact ih hmore
    · exact Attempt.alike_pure trivial

/-- Matching by name makes the same calls for the templates in another order, and fails for them if
it fails. -/
theorem byName_alike (composite : Resource) : (byName composite templates).Alike (fun _ _ => True)
    (byName composite templates') := by
  have hany : templates.any (fun t => t.name.isNone) = templates'.any fun t => t.name.isNone := by
    rw [Bool.eq_iff_iff, List.any_eq_true, List.any_eq_true]
    exact exists_congr fun t => and_congr_left' hperm.mem_iff.symm
  unfold byName
  rw [← hany]
  split
  · exact Attempt.alike_bind fun references => Attempt.alike_pure trivial
  · refine Attempt.alike_bind fun references => collect_alike hnames hperm ⟨fun _ => none, ?_, ?_⟩
    · exact byOrder_nil_eq_map templates
    · exact byOrder_nil_eq_map templates'

end

/-! ### The correspondence -/

/-- The reply to a get depends on the reference alone. -/
def Steady (log : List Exchange) : Prop :=
  ∀ reference reply reply', ⟨.get reference, reply⟩ ∈ log → ⟨.get reference, reply'⟩ ∈ log →
    reply = reply'

variable {log : List Exchange}

theorem mem_got {reference : Reference} :
    reference ∈ log.filterMap got? ↔ ∃ reply, ⟨.get reference, reply⟩ ∈ log := by
  rw [List.mem_filterMap]
  constructor
  · rintro ⟨⟨request, reply⟩, hmem, hgot⟩
    cases request <;> cases hgot
    exact ⟨reply, hmem⟩
  · rintro ⟨reply, hmem⟩
    exact ⟨_, hmem, rfl⟩

/-- If no reference is read twice, there is nothing to be unsteady about. -/
theorem steady_of_nodup (h : (log.filterMap got?).Nodup) : Steady log := by
  induction log with
  | nil => exact fun _ _ _ hmem => absurd hmem List.not_mem_nil
  | cons exchange rest ih =>
    have hfirst {reference : Reference} {reply reply' : Except Error (Option Resource)}
        (heq : exchange = ⟨.get reference, reply⟩) : ⟨.get reference, reply'⟩ ∉ rest := by
      intro hmem
      subst heq
      exact (List.nodup_cons.mp h).1 (mem_got.mpr ⟨reply', hmem⟩)
    intro reference reply reply' hmem hmem'
    obtain heq | hmem := List.mem_cons.mp hmem <;> obtain heq' | hmem' := List.mem_cons.mp hmem'
    · simpa using heq.trans heq'.symm
    · exact absurd hmem' (hfirst heq.symm)
    · exact absurd hmem (hfirst heq'.symm)
    · have hrest := h.sublist ((List.sublist_cons_self exchange rest).filterMap got?)
      exact ih hrest reference _ _ hmem hmem'

theorem Steady.reading_eq (h : Steady log) {r r' : Resource} (hmem : reading reference r ∈ log)
    (hmem' : reading reference r' ∈ log) : r = r' :=
  Option.some.inj (Except.ok.inj (h reference _ _ hmem hmem'))

/-- If names tell the templates apart, each is assigned the reference found for its name. -/
theorem assign_eq_map {found : String → Option Reference}
    (hnames : (templates.map (·.name)).Nodup) :
    assign found templates = templates.map fun t => ⟨t, t.name.bind found⟩ := by
  induction templates with
  | nil => rfl
  | cons t rest ih =>
    obtain ⟨hfirst, hrest⟩ := List.nodup_cons.mp hnames
    rw [assign, ih hrest, List.map_cons]
    congr 2
    cases hname : t.name with
    | none => rfl
    | some name =>
      have hnone : ¬ ∃ later ∈ rest, later.name = some name := by
        rintro ⟨later, hmem, hlater⟩
        exact hfirst (List.mem_map.mpr ⟨later, hmem, hlater.trans hname.symm⟩)
      rw [Option.bind_some, Option.bind_some, if_neg hnone]

/-- What matching by name comes to, by its record, whatever the store replies. -/
theorem assigned_of_record {σ : Type} {store : Handler σ} {s : σ}
    {associations : List Association} (hnames : (templates.map (·.name)).Nodup)
    (h : byNameRecord store s composite templates = (.ok associations, log))
    (hfalls : ¬ FallsBack templates log) :
    associations = templates.map fun t => ⟨t, t.name.bind (lastRead? log)⟩ := by
  obtain ⟨log', hlog, hassigns, -⟩ := (byName_assigns composite templates).run_logged store s
  simp only [byNameRecord, hlog, Prod.mk.injEq, List.nil_append] at h hassigns
  obtain ⟨hresult, rfl⟩ := h
  rw [hresult] at hassigns
  exact (hassigns.resolve_right hfalls).trans (assign_eq_map hnames)

/-- The record is the same for the templates in another order, and there is a result as well. -/
theorem byNameRecord_perm {σ : Type} (store : Handler σ) (s : σ) (composite : Resource)
    (hnames : (templates.map (·.name)).Nodup) (hperm : templates'.Perm templates)
    {associations : List Association}
    (h : byNameRecord store s composite templates = (.ok associations, log)) :
    ∃ associations', byNameRecord store s composite templates' = (.ok associations', log) := by
  obtain ⟨hresults, hlast⟩ := (byName_alike hnames hperm composite).run store.logged (s, [])
  obtain ⟨hresult, hlog⟩ := Prod.mk.inj h
  rw [hresult] at hresults
  cases hresult' : ((byName composite templates').run.run store.logged (s, [])).1 with
  | error e =>
    rw [hresult'] at hresults
    exact hresults.elim
  | ok associations' =>
    exact ⟨associations', Prod.ext hresult' ((congrArg _ hlast).symm.trans hlog)⟩

theorem fallsBack_perm (hperm : templates'.Perm templates) :
    FallsBack templates' log ↔ FallsBack templates log :=
  or_congr_left (exists_congr fun _ => and_congr_left' hperm.mem_iff)

/-- What templates are found matches what was read through references. -/
structure Corresponds (references : List Reference) (templates : List Template)
    (log : List Exchange) (found : Template → Option Reference) : Prop where
  /-- A template gets one of the references, and the resource behind it names the template. -/
  sound : ∀ t ∈ templates, ∀ reference, found t = some reference → reference ∈ references ∧
    (∃ r, reading reference r ∈ log) ∧ ∀ r, reading reference r ∈ log → r.templateName? = t.name
  /-- All references are read. -/
  read : ∀ reference ∈ references, ∃ reply, ⟨.get reference, reply⟩ ∈ log
  /-- A template gets none only if no resource that is read names it. -/
  complete : ∀ t ∈ templates, found t = none →
    ∀ reference r, reading reference r ∈ log → r.templateName? ≠ t.name
  /-- No two templates get the same. -/
  apart : ∀ t ∈ templates, ∀ t' ∈ templates, ∀ reference,
    found t = some reference → found t' = some reference → t = t'

/-- The references read last for the names of templates correspond to them, if all references were
read. -/
theorem corresponds_lastRead (hnames : (templates.map (·.name)).Nodup)
    (hfalls : ¬ FallsBack templates log) (hsteady : Steady log)
    (hgets : log.filterMap got? = references) :
    Corresponds references templates log fun t => t.name.bind (lastRead? log) := by
  have hsound (t : Template) (reference : Reference)
      (hfound : t.name.bind (lastRead? log) = some reference) :
      (∃ r, reading reference r ∈ log) ∧
        ∀ r, reading reference r ∈ log → r.templateName? = t.name := by
    obtain ⟨name, hname, hlast⟩ := Option.bind_eq_some_iff.mp hfound
    obtain ⟨r, hread, hnamed⟩ := lastRead?_eq_some hlast
    refine ⟨⟨r, hread⟩, fun r' hread' => ?_⟩
    rw [hsteady.reading_eq hread' hread, hnamed, hname]
  constructor
  case sound =>
    intro t _ reference hfound
    obtain ⟨⟨r, hread⟩, hnamed⟩ := hsound t reference hfound
    exact ⟨hgets ▸ mem_got.mpr ⟨_, hread⟩, ⟨r, hread⟩, hnamed⟩
  case read =>
    intro reference hmem
    exact mem_got.mp (hgets ▸ hmem)
  case complete =>
    intro t ht hnone reference r hread hnamed
    obtain ⟨name, hname⟩ := Option.ne_none_iff_exists'.mp fun h => hfalls (.inl ⟨t, ht, h⟩)
    have hsome := lastRead?_isSome hread (hnamed.trans hname)
    rw [hname, Option.bind_some] at hnone
    simp [hnone] at hsome
  case apart =>
    intro t ht t' ht' reference hfound hfound'
    obtain ⟨⟨r, hread⟩, hnamed⟩ := hsound t reference hfound
    exact List.inj_on_of_nodup_map hnames ht ht'
      ((hnamed r hread).symm.trans ((hsound t' reference hfound').2 r hread))

/-- Matching by name is a correspondence. If the names of the templates tell them apart, if a get is
answered by the reference alone, and if the matching does not fall back to the places, then each
template is associated as it is, in order, with the reference whose resource names it, if there is
one. For the templates in another order the calls are the same, and each template gets what it
got. -/
theorem byName_corresponds {σ : Type} (store : Handler σ) (s : σ) (composite : Resource)
    (templates : List Template) (hnames : (templates.map (·.name)).Nodup) :
    let (result, log) := byNameRecord store s composite templates
    ∀ associations, result = .ok associations → ¬ FallsBack templates log → Steady log →
      ∃ (references : List Reference) (found : Template → Option Reference),
        composite.resourceRefs = .ok references ∧
        associations = templates.map (fun t => ⟨t, found t⟩) ∧
        Corresponds references templates log found ∧
        ∀ templates', templates'.Perm templates → byNameRecord store s composite templates' =
          (.ok (templates'.map fun t => ⟨t, found t⟩), log) := by
  generalize hrecord : byNameRecord store s composite templates = record
  obtain ⟨result, log⟩ := record
  rintro associations rfl hfalls hsteady
  have hcases := byNameRecord_cases store s composite fun t ht h => hfalls (.inl ⟨t, ht, h⟩)
  rw [hrecord] at hcases
  obtain ⟨⟨e, habsurd⟩, -⟩ | ⟨references, hreferences, hround⟩ := hcases
  · cases habsurd
  · have hnamed : Named log := fun reference r hread h => hfalls (.inr ⟨reference, r, hread, h⟩)
    have hgets := hround.gets hnamed rfl
    refine ⟨references, fun t => t.name.bind (lastRead? log), hreferences,
      assigned_of_record hnames hrecord hfalls, corresponds_lastRead hnames hfalls hsteady hgets,
      fun templates' hperm => ?_⟩
    obtain ⟨associations', hrecord'⟩ := byNameRecord_perm store s composite hnames hperm hrecord
    rw [hrecord', assigned_of_record ((hperm.map (·.name)).nodup_iff.mpr hnames) hrecord'
      (mt (fallsBack_perm hperm).mp hfalls)]

/-! ### A box, a lid and a key -/

/-- A template with a name. -/
def templateNamed (name : String) : Template := { name := some name, base := .object [] }

/-- The store of a box, its lid, and a box whose template is gone. -/
def attic : Memory :=
  ((({} : Memory).insert (ownedBox "upper" "lid")).insert (ownedBox "lower" "box")).insert oldBox

/-- The lid and the box are bound crosswise, nothing is found for the key, and the old box is
deleted. In another order of the templates, each gets the same. -/
theorem attic_corresponds :
    let templates := ["box", "key", "lid"].map templateNamed
    let composite := heir ["upper", "gone", "old", "lower"]
    (templates.map (·.name)).Nodup ∧ ∃ associations log,
      byNameRecord Memory.handler attic composite templates = (.ok associations, log) ∧
      ¬ FallsBack templates log ∧ Steady log ∧
      byNameRecord Memory.handler attic composite (["lid", "box", "key"].map templateNamed) =
        (.ok [⟨templateNamed "lid", some (boxReference "upper")⟩,
          ⟨templateNamed "box", some (boxReference "lower")⟩,
          ⟨templateNamed "key", none⟩], log) := by
  intro templates composite
  have hnames : (templates.map (·.name)).Nodup := by decide
  have hcheck : comesTo [⟨templateNamed "box", some (boxReference "lower")⟩,
        ⟨templateNamed "key", none⟩, ⟨templateNamed "lid", some (boxReference "upper")⟩]
      [(boxReference "upper", ownedBox "upper" "lid"), (boxReference "old", oldBox),
        (boxReference "lower", ownedBox "lower" "box")] [oldBox]
      (byNameRecord Memory.handler attic composite templates) = true ∧
      ((byNameRecord Memory.handler attic composite templates).2.filterMap got?).Nodup := by
    decide +kernel
  have hcorresponds := byName_corresponds Memory.handler attic composite templates hnames
  generalize byNameRecord Memory.handler attic composite templates = record at hcheck hcorresponds
  obtain ⟨e | associations, log⟩ := record
  · cases hcheck.1
  · obtain ⟨hbound, hreadings, -⟩ := of_decide_eq_true hcheck.1
    have hsteady : Steady log := steady_of_nodup hcheck.2
    have hfalls : ¬ FallsBack templates log := by
      rintro (⟨t, ht, hname⟩ | ⟨reference, r, hread, hname⟩)
      · obtain ⟨name, -, rfl⟩ := List.mem_map.mp ht
        cases hname
      · rw [mem_readings, hreadings] at hread
        simp only [List.mem_cons, Prod.mk.injEq, List.not_mem_nil, or_false] at hread
        obtain ⟨-, rfl⟩ | ⟨-, rfl⟩ | ⟨-, rfl⟩ := hread <;> exact absurd hname (by decide)
    obtain ⟨references, found, -, hfound, -, hperm⟩ := hcorresponds _ rfl hfalls hsteady
    refine ⟨hnames, associations, log, rfl, hfalls, hsteady, ?_⟩
    rw [hperm _ (by decide)]
    simp only [hbound, templates, List.map_cons, List.map_nil, List.cons.injEq,
      Association.mk.injEq, true_and, and_true] at hfound
    obtain ⟨hbox, hkey, hlid⟩ := hfound
    simp only [List.map_cons, List.map_nil, ← hbox, ← hkey, ← hlid]

end Association

end ResourceComposition
