/-
What a fixture does to a repository, one definition at a time, and the
induction over a whole load (`Fixture.load_keeps`).
-/
import AclTree.Fixture
import AclTree.Proofs.Acl.Canonical
import AclTree.Proofs.Except
import AclTree.Proofs.Repository.Change

namespace AclTree

namespace Repository

variable {r s : Repository}

/-- Registering adds one descriptor behind those there are. -/
theorem register_eq_ok {p q : Privilege} (h : r.register p = .ok (q, s)) :
    q = p ∧ Privilege.holds r.privileges p.name = false ∧
      s = { r with privileges := r.privileges ++ [p] } := by
  rw [register_eq] at h
  split at h
  · cases h
  · rename_i hn
    cases h
    exact ⟨rfl, by simpa using hn, rfl⟩

theorem registerAggregate_eq_ok {name : String} {constituents : List String} {p : Privilege}
    (h : r.registerAggregate name constituents = .ok (p, s)) :
    ∃ parts, r.resolve constituents = .ok parts ∧
      r.register (.aggregate name parts) = .ok (p, s) := by
  rw [registerAggregate_eq] at h
  exact Except.bind_eq_ok.1 h

end Repository

variable {r s : Repository}

theorem PrivilegeDefinition.register_eq_ok {d : PrivilegeDefinition} (h : d.register r = .ok s) :
    ∃ p, r.register p = .ok (p, s) := by
  obtain ⟨⟨q, s'⟩, ha, rfl⟩ := Except.map_eq_ok.1 h
  unfold PrivilegeDefinition.registration at ha
  split at ha
  · obtain ⟨parts, -, hr⟩ := Repository.registerAggregate_eq_ok ha
    obtain ⟨rfl, -, -⟩ := Repository.register_eq_ok hr
    exact ⟨_, hr⟩
  · obtain ⟨rfl, -, -⟩ := Repository.register_eq_ok ha
    exact ⟨_, ha⟩

namespace NodeDefinition

variable {d : NodeDefinition}

theorem create_eq_ok (h : d.create r = .ok s) :
    ∃ path, r.addPath d.path d.kind = .ok (path, s) := by
  obtain ⟨⟨path, s'⟩, ha, rfl⟩ := Except.map_eq_ok.1 h
  exact ⟨path, ha⟩

theorem bind_eq_ok (h : d.bind r = .ok s) :
    s = r ∨ ∃ acl, d.buildAcl r = .ok acl ∧ s = r.withPolicy d.path (some acl) := by
  unfold bind at h
  split at h
  · cases h
    exact .inl rfl
  · obtain ⟨acl, hb, rfl⟩ := Except.map_eq_ok.1 h
    exact .inr ⟨acl, hb, rfl⟩

/-- The entries of a definition are added one after the other to the empty list. -/
theorem buildAcl_keeps {I : Acl → Prop} {acl : Acl} (empty : I .empty)
    (add : ∀ (e : EntryDefinition) privileges acl, I acl → r.resolve e.privileges = .ok privileges →
      I (acl.add ⟨e.principal⟩ privileges).1) (h : d.buildAcl r = .ok acl) : I acl := by
  refine Except.foldlM_keeps (fun e acl acl' hacl ha => ?_) empty h
  unfold addEntry at ha
  split at ha
  · cases ha
  · obtain ⟨privileges, hr, rfl⟩ := Except.map_eq_ok.1 ha
    exact add e privileges acl hacl hr

theorem buildAcl_canonical {acl : Acl} (h : d.buildAcl r = .ok acl) : acl.Canonical :=
  buildAcl_keeps .empty (fun _ privileges _ hacl _ => hacl.add _ privileges) h

end NodeDefinition

/-- **A fixture that loads** keeps what each of its definitions keeps. -/
theorem Fixture.load_keeps {I : Repository → Prop} {f : Fixture} (initial : I .initial)
    (define : ∀ (d : PrivilegeDefinition) r s, I r → d.register r = .ok s → I s)
    (create : ∀ (d : NodeDefinition) r s, I r → d.create r = .ok s → I s)
    (bind : ∀ (d : NodeDefinition) r s, I r → d.bind r = .ok s → I s) (h : f.load = .ok r) : I r := by
  obtain ⟨r₁, hdefine, h⟩ := Except.bind_eq_ok.1 h
  obtain ⟨nodes, -, h⟩ := Except.bind_eq_ok.1 h
  obtain ⟨r₂, hcreate, hbind⟩ := Except.bind_eq_ok.1 h
  have h₁ := Except.foldlM_keeps define initial hdefine
  have h₂ := Except.foldlM_keeps create h₁ hcreate
  exact Except.foldlM_keeps bind h₂ hbind

end AclTree
