/-
The lists of a fixture. The entries of a definition are added one after the
other, which comes to one entry for each principal (`EntryDefinition.aclOf`),
with all that is listed for it anywhere. What a definition can be bound to
depends on the registered privileges alone (`Fixture.exists_bind_eq_ok`), so
definitions can be bound in any order.
-/
import AclTree.Proofs.Repository.Reachable
import AclTree.Proofs.Repository.Registry
import Mathlib.Data.List.Induction

namespace AclTree

/-! ## First mentions -/

theorem eraseDups_concat {α : Type} [DecidableEq α] (as : List α) (a : α) :
    (as ++ [a]).eraseDups = if a ∈ as then as.eraseDups else as.eraseDups ++ [a] := by
  rw [List.eraseDups_append]
  split
  · rename_i h
    simp [List.removeAll, h]
  · rename_i h
    simp [List.removeAll, h, List.eraseDups_cons]

theorem nodup_eraseDups {α : Type} [DecidableEq α] (as : List α) :
    as.eraseDups.Nodup := by
  induction as using List.reverseRecOn with
  | nil => simp
  | append_singleton as a ih =>
    rw [eraseDups_concat]
    split
    · exact ih
    · rename_i h
      refine List.nodup_append.2 ⟨ih, List.nodup_singleton a, ?_⟩
      rintro x hx _ hy rfl
      rw [List.mem_singleton.1 hy] at hx
      exact h (List.mem_eraseDups.1 hx)

section Lookup

variable {find : String → Option Privilege} (hfind : ∀ name p, find name = some p → p.name = name)
include hfind

theorem names_filterMap {names : List String} (h : ∀ name ∈ names, (find name).isSome = true) :
    Privilege.names (names.filterMap find) = names := by
  induction names with
  | nil => rfl
  | cons name names ih =>
    obtain ⟨hname, h⟩ := List.forall_mem_cons.1 h
    obtain ⟨p, hp⟩ := Option.isSome_iff_exists.1 hname
    rw [List.filterMap_cons_some hp, Privilege.names_cons, ih h, hfind name p hp]

/-- Merging what was looked up is looking up what is mentioned, once each. -/
theorem merge_filterMap {more : List String} : ∀ {held : List String},
    (∀ name ∈ held ++ more, (find name).isSome = true) →
    Privilege.merge (held.eraseDups.filterMap find) (more.filterMap find) =
      (held ++ more).eraseDups.filterMap find := by
  induction more with
  | nil =>
    intro held _
    rw [List.append_nil]
    rfl
  | cons name more ih =>
    intro held h
    obtain ⟨p, hp⟩ := Option.isSome_iff_exists.1 (h name (by simp))
    have hheld : Privilege.holds (held.eraseDups.filterMap find) p.name = true ↔ name ∈ held := by
      rw [Privilege.holds_iff, names_filterMap hfind, hfind name p hp, List.mem_eraseDups]
      exact fun n hn => h n (List.mem_append_left _ (List.mem_eraseDups.1 hn))
    have hstep : (if Privilege.holds (held.eraseDups.filterMap find) p.name = true
        then held.eraseDups.filterMap find else held.eraseDups.filterMap find ++ [p]) =
        (held ++ [name]).eraseDups.filterMap find := by
      rw [eraseDups_concat]
      by_cases hn : name ∈ held
      · rw [if_pos (hheld.2 hn), if_pos hn]
      · rw [if_neg (fun hm => hn (hheld.1 hm)), if_neg hn, List.filterMap_append,
          List.filterMap_cons_some hp, List.filterMap_nil]
    rw [List.filterMap_cons_some hp, Privilege.merge_cons, hstep, ih (by simpa using h),
      List.append_assoc, List.singleton_append]

end Lookup

namespace EntryDefinition

/-- The names that are listed for a principal, in any of its entries. -/
def namesFor (entries : List EntryDefinition) (principal : String) : List String :=
  (entries.filter (·.principal == principal)).flatMap (·.privileges)

/-- What a principal holds by all its entries together, each name where it is first mentioned. -/
def merged (find : String → Option Privilege) (entries : List EntryDefinition)
    (principal : String) : Entry :=
  ⟨⟨principal⟩, (namesFor entries principal).eraseDups.filterMap find⟩

/-- The list that entries describe: one entry for each principal, where it is first mentioned. -/
def aclOf (find : String → Option Privilege) (entries : List EntryDefinition) : Acl :=
  ⟨(entries.map (·.principal)).eraseDups.map (merged find entries)⟩

/-- The entry lists a privilege, and only such as are registered. -/
def Resolves (r : Repository) (e : EntryDefinition) : Prop :=
  e.privileges ≠ [] ∧ ∀ name ∈ e.privileges, (r.findPrivilege? name).isSome = true

variable {r : Repository} {entries : List EntryDefinition} {e : EntryDefinition}
  {principal : String}

theorem namesFor_concat : namesFor (entries ++ [e]) principal =
    namesFor entries principal ++ if e.principal = principal then e.privileges else [] := by
  unfold namesFor
  rw [List.filter_append, List.flatMap_append, List.filter_cons, List.filter_nil]
  by_cases he : e.principal = principal
  · simp [he]
  · simp [he]

theorem namesFor_of_not_mem (h : principal ∉ entries.map (·.principal)) :
    namesFor entries principal = [] := by
  unfold namesFor
  rw [List.filter_eq_nil_iff.2, List.flatMap_nil]
  intro e he hp
  exact h (List.mem_map.2 ⟨e, he, by simpa using hp⟩)

theorem mem_namesFor {name : String} (h : name ∈ namesFor entries principal) :
    ∃ e ∈ entries, name ∈ e.privileges := by
  obtain ⟨e, he, hname⟩ := List.mem_flatMap.1 h
  exact ⟨e, (List.mem_filter.1 he).1, hname⟩

theorem merged_concat_of_ne (find : String → Option Privilege) (h : e.principal ≠ principal) :
    merged find (entries ++ [e]) principal = merged find entries principal := by
  unfold merged
  rw [namesFor_concat, if_neg h, List.append_nil]

/-- One more entry adds to what its principal holds. -/
theorem merged_concat_self (h : ∀ e' ∈ entries ++ [e], e'.Resolves r) :
    merged r.findPrivilege? (entries ++ [e]) e.principal =
      ⟨⟨e.principal⟩, Privilege.merge (merged r.findPrivilege? entries e.principal).privileges
        (e.privileges.filterMap r.findPrivilege?)⟩ := by
  unfold merged
  rw [namesFor_concat, if_pos rfl, merge_filterMap fun _ _ => Repository.name_of_findPrivilege?]
  intro name hname
  rcases List.mem_append.1 hname with hname | hname
  · obtain ⟨e', he', hname⟩ := mem_namesFor hname
    exact (h e' (List.mem_append_left _ he')).2 name hname
  · exact (h e (by simp)).2 name hname

/-- **Adding an entry** to the list of the entries before it gives the list of them all. -/
theorem aclOf_concat (h : ∀ e' ∈ entries ++ [e], e'.Resolves r) :
    ((aclOf r.findPrivilege? entries).add ⟨e.principal⟩
      (e.privileges.filterMap r.findPrivilege?)).1 = aclOf r.findPrivilege? (entries ++ [e]) := by
  have he : e.Resolves r := h e (by simp)
  have hnonempty : e.privileges.filterMap r.findPrivilege? ≠ [] := by
    rw [Ne, ← Privilege.names_eq_nil,
      names_filterMap (fun _ _ => Repository.name_of_findPrivilege?) he.2]
    exact he.1
  have hself := merged_concat_self h
  have hothers : ∀ us : List String, (∀ u ∈ us, u ≠ e.principal) →
      us.map (merged r.findPrivilege? (entries ++ [e])) =
        us.map (merged r.findPrivilege? entries) :=
    fun us hus => List.map_congr_left fun u hu => merged_concat_of_ne _ (hus u hu).symm
  have hnodup := nodup_eraseDups (entries.map (·.principal))
  rcases Acl.add_cases (aclOf r.findPrivilege? entries) ⟨e.principal⟩ hnonempty with
    ⟨before, x, after, hs, -, hx, ha⟩ | ⟨hnew, ha⟩ <;> rw [ha]
  · -- The principal was mentioned before: its entry alone changes, where it stands.
    obtain ⟨us, vs, heq, rfl, hvs⟩ := List.map_eq_append_iff.1 hs
    obtain ⟨u, vs, rfl, rfl, rfl⟩ := List.map_eq_cons_iff.1 hvs
    have hu : u = e.principal := congrArg Principal.name hx
    subst hu
    have hmem : e.principal ∈ entries.map (·.principal) := by
      rw [← List.mem_eraseDups, heq]
      simp
    rw [heq] at hnodup
    have hne := List.nodup_middle.1 hnodup
    rw [List.nodup_cons, List.mem_append, not_or] at hne
    unfold aclOf
    rw [List.map_append, List.map_cons, List.map_nil, eraseDups_concat, if_pos hmem, heq,
      List.map_append, List.map_cons, hself, hothers us fun v hv he => hne.1.1 (he ▸ hv),
      hothers vs fun v hv he => hne.1.2 (he ▸ hv)]
  · -- Its first mention: its entry comes behind all others, which do not change.
    have hmem : e.principal ∉ entries.map (·.principal) := by
      intro hmem
      exact hnew _ (List.mem_map_of_mem (List.mem_eraseDups.2 hmem)) rfl
    have hne : ∀ v ∈ (entries.map (·.principal)).eraseDups, v ≠ e.principal :=
      fun v hv he => hmem (List.mem_eraseDups.1 (he ▸ hv))
    unfold aclOf
    rw [List.map_append, List.map_cons, List.map_nil, eraseDups_concat, if_neg hmem,
      List.map_append, List.map_cons, List.map_nil, hself, hothers _ hne]
    unfold merged
    rw [namesFor_of_not_mem hmem]
    rfl

end EntryDefinition

namespace NodeDefinition

variable {d : NodeDefinition} {r s : Repository} {acl : Acl}

theorem addEntry_eq_ok {e : EntryDefinition} {acl' : Acl} : d.addEntry r acl e = .ok acl' ↔
    e.Resolves r ∧ acl' = (acl.add ⟨e.principal⟩ (e.privileges.filterMap r.findPrivilege?)).1 := by
  unfold addEntry EntryDefinition.Resolves
  by_cases he : e.privileges = []
  · simp [he]
  · rw [if_neg (by simpa using he), Except.map_eq_ok]
    simp only [Repository.resolve_eq_ok_iff]
    constructor
    · rintro ⟨_, ⟨hknown, rfl⟩, rfl⟩
      exact ⟨⟨he, hknown⟩, rfl⟩
    · rintro ⟨⟨-, hknown⟩, rfl⟩
      exact ⟨_, ⟨hknown, rfl⟩, rfl⟩

/-- The list of a definition is that of its entries, all of which have to resolve. -/
theorem buildAcl_eq_ok : d.buildAcl r = .ok acl ↔
    (∀ e ∈ d.acl, e.Resolves r) ∧ acl = EntryDefinition.aclOf r.findPrivilege? d.acl := by
  have hadd : ∀ more entries : List EntryDefinition, (∀ e ∈ entries, e.Resolves r) →
      (more.foldlM (d.addEntry r) (EntryDefinition.aclOf r.findPrivilege? entries) = .ok acl ↔
        (∀ e ∈ more, e.Resolves r) ∧
          acl = EntryDefinition.aclOf r.findPrivilege? (entries ++ more)) := by
    -- Over the entries to come; those before have made the list that they describe.
    intro more
    induction more with
    | nil =>
      intro entries _
      rw [List.append_nil]
      exact ⟨fun h => by cases h; exact ⟨by simp, rfl⟩, fun h => by rw [h.2]; rfl⟩
    | cons e more ih =>
      intro entries hentries
      have hall (he : e.Resolves r) : ∀ e' ∈ entries ++ [e], e'.Resolves r := by
        intro e' he'
        rcases List.mem_append.1 he' with he' | he'
        · exact hentries e' he'
        · rwa [List.mem_singleton.1 he']
      rw [List.foldlM_cons, Except.bind_eq_ok, List.forall_mem_cons]
      constructor
      · rintro ⟨acl', ha, h⟩
        obtain ⟨he, rfl⟩ := addEntry_eq_ok.1 ha
        rw [EntryDefinition.aclOf_concat (hall he), ih _ (hall he), List.append_assoc] at h
        exact ⟨⟨he, h.1⟩, h.2⟩
      · rintro ⟨⟨he, hmore⟩, rfl⟩
        refine ⟨_, addEntry_eq_ok.2 ⟨he, rfl⟩, ?_⟩
        rw [EntryDefinition.aclOf_concat (hall he), ih _ (hall he), List.append_assoc]
        exact ⟨hmore, rfl⟩
  exact hadd d.acl [] (by simp)

/-- The list that a definition is bound to, if it has entries. -/
def policy? (r : Repository) (d : NodeDefinition) : Option Acl :=
  if d.acl.isEmpty then none else some (EntryDefinition.aclOf r.findPrivilege? d.acl)

theorem bind_eq_ok_iff : d.bind r = .ok s ↔
    (∀ e ∈ d.acl, e.Resolves r) ∧
      s = if d.acl.isEmpty then r else r.withPolicy d.path (d.policy? r) := by
  unfold bind policy?
  by_cases hd : d.acl = []
  · simp [hd, eq_comm]
  · rw [if_neg (by simpa using hd), if_neg (by simpa using hd), if_neg (by simpa using hd),
      Except.map_eq_ok]
    simp only [buildAcl_eq_ok]
    constructor
    · rintro ⟨_, ⟨hall, rfl⟩, rfl⟩
      exact ⟨hall, rfl⟩
    · rintro ⟨hall, rfl⟩
      exact ⟨_, ⟨hall, rfl⟩, rfl⟩

end NodeDefinition

namespace Fixture

variable {r s t : Repository} {d : NodeDefinition} {nodes : List NodeDefinition}

theorem resolves_of_bare {e : EntryDefinition} (h : s.bare = r.bare) :
    e.Resolves s ↔ e.Resolves r := by
  unfold EntryDefinition.Resolves
  rw [Repository.findPrivilege?_of_bare h]

theorem bare_bind (h : d.bind r = .ok s) : s.bare = r.bare := by
  obtain ⟨-, rfl⟩ := NodeDefinition.bind_eq_ok_iff.1 h
  split
  · rfl
  · exact Repository.bare_withPolicy ..

/-- Definitions can be bound one after the other exactly if all their entries resolve. -/
theorem exists_bind_eq_ok : (∃ s, nodes.foldlM (fun r d => d.bind r) r = .ok s) ↔
    ∀ d ∈ nodes, ∀ e ∈ d.acl, e.Resolves r := by
  induction nodes generalizing r with
  | nil => exact iff_of_true ⟨r, rfl⟩ (by simp)
  | cons d nodes ih =>
    rw [List.forall_mem_cons]
    simp only [List.foldlM_cons, Except.bind_eq_ok]
    constructor
    · rintro ⟨s, t, hd, hs⟩
      have hnodes := ih.1 ⟨s, hs⟩
      simp only [resolves_of_bare (bare_bind hd)] at hnodes
      exact ⟨(NodeDefinition.bind_eq_ok_iff.1 hd).1, hnodes⟩
    · rintro ⟨hd, hnodes⟩
      have hbind := NodeDefinition.bind_eq_ok_iff.2 ⟨hd, rfl⟩
      simp only [← resolves_of_bare (bare_bind hbind)] at hnodes
      obtain ⟨s, hs⟩ := ih.2 hnodes
      exact ⟨s, _, hbind, hs⟩

/-- What there is after definitions were bound: the same nodes, with the lists described. -/
structure Bound (r : Repository) (nodes : List NodeDefinition) (s : Repository) : Prop where
  bare : s.bare = r.bare
  listed : ∀ d ∈ nodes, s.policyAt d.path = d.policy? r
  others : ∀ q, q ∉ nodes.map (·.path) → s.policyAt q = r.policyAt q

theorem Bound.privileges (h : Bound r nodes s) : s.privileges = r.privileges :=
  (congrArg Repository.privileges h.bare :)

theorem policy?_of_bare (h : s.bare = r.bare) : d.policy? s = d.policy? r := by
  unfold NodeDefinition.policy?
  rw [Repository.findPrivilege?_of_bare h]

theorem Bound.one (hc : r.contains d.path = true) (hp : r.policyAt d.path = none)
    (h : d.bind r = .ok s) : Bound r [d] s := by
  have hpolicy : ∀ q, s.policyAt q = if d.path = q then d.policy? r else r.policyAt q := by
    intro q
    obtain ⟨-, rfl⟩ := NodeDefinition.bind_eq_ok_iff.1 h
    split
    · rename_i hd
      rw [NodeDefinition.policy?, if_pos hd]
      split
      · rename_i hq
        rw [← hq, hp]
      · rfl
    · exact Repository.policyAt_withPolicy_of_contains hc _ q
  refine ⟨bare_bind h, fun e he => ?_, fun q hq => ?_⟩
  · rw [List.mem_singleton.1 he, hpolicy, if_pos rfl]
  · rw [hpolicy, if_neg]
    exact fun he => hq (by simp [he])

theorem Bound.cons (h : Bound r [d] s) (ht : Bound s nodes t) (hd : d.path ∉ nodes.map (·.path)) :
    Bound r (d :: nodes) t where
  bare := ht.bare.trans h.bare
  listed e he := by
    rcases List.mem_cons.1 he with rfl | he
    · rw [ht.others _ hd]
      exact h.listed e List.mem_cons_self
    · rw [ht.listed e he, policy?_of_bare h.bare]
  others q hq := by
    rw [List.map_cons, List.mem_cons, not_or] at hq
    rw [ht.others q hq.2]
    exact h.others q (by simpa using hq.1)

/-- Definitions of different nodes, which had no lists, are all bound in the end. -/
theorem bound (hc : ∀ d ∈ nodes, r.contains d.path = true ∧ r.policyAt d.path = none)
    (hnodup : (nodes.map (·.path)).Nodup)
    (h : nodes.foldlM (fun r d => d.bind r) r = .ok s) : Bound r nodes s := by
  induction nodes generalizing r with
  | nil =>
    cases h
    exact ⟨rfl, fun _ hd => absurd hd List.not_mem_nil, fun _ _ => rfl⟩
  | cons d nodes ih =>
    obtain ⟨hd, hc⟩ := List.forall_mem_cons.1 hc
    obtain ⟨hnot, hnodup⟩ := List.nodup_cons.1 hnodup
    rw [List.foldlM_cons] at h
    obtain ⟨t, hbind, h⟩ := Except.bind_eq_ok.1 h
    have hone := Bound.one hd.1 hd.2 hbind
    refine hone.cons (ih (fun e he => ?_) hnodup h) hnot
    rw [Repository.contains_of_bare hone.bare, hone.others]
    · exact hc e he
    · rintro hmem
      have hpath : e.path = d.path := by simpa using hmem
      exact hnot (List.mem_map.2 ⟨e, he, hpath⟩)

end Fixture

end AclTree
