/-
Adding nodes. What names no place is refused first, then a place that is taken,
then a place below no node; on a tree the last two exclude each other
(`AddsBelow`). Anything else adds one node there and leaves the others as they
were (`Gains`). A place can be given by its path or by its parent and its name,
which comes to the same (`Live.adds_exactly`).
-/
import AclTree.Proofs.Repository.Live

namespace AclTree.Repository

variable {r s : Repository} {parent name kind path p : String}

/-! ## One node more -/

/-- There is one node more, behind the other children of its parent, without children or a list. -/
structure Gains (r : Repository) (parent path kind : String) (s : Repository) : Prop where
  fresh : r.contains path = false
  paths : s.paths.Perm (path :: r.paths)
  node : s.nodes.find? path =
    some { kind, parent := some parent, children := [], policy := none }
  above : ∃ node, r.nodes.find? parent = some node ∧
    s.nodes.find? parent = some { node with children := node.children ++ [path] }
  others : ∀ q, q ≠ path → q ≠ parent → s.nodes.find? q = r.nodes.find? q
  privileges : s.privileges = r.privileges

theorem nodup_paths (r : Repository) : r.paths.Nodup := by
  have hne : ∀ {a b : String}, a < b → a ≠ b := fun hlt he => String.lt_irrefl _ (he ▸ hlt)
  exact r.nodes.ascending_paths.imp hne

theorem paths_grow (hd : r.contains path = false) :
    (r.grow parent path kind).paths.Perm (path :: r.paths) := by
  have hnew : path ∉ r.paths := fun hm => by
    rw [contains_iff_mem_paths.2 hm] at hd
    cases hd
  refine (List.perm_ext_iff_of_nodup (nodup_paths _) (List.nodup_cons.2 ⟨hnew, nodup_paths r⟩)).2
    fun q => ?_
  rw [List.mem_cons, ← contains_iff_mem_paths, contains_grow, contains_iff_mem_paths]

theorem gains_grow (hd : r.contains path = false) (hc : r.contains parent = true) :
    r.Gains parent path kind (r.grow parent path kind) where
  fresh := hd
  paths := paths_grow hd
  node := by rw [find?_grow, if_pos rfl]
  above := by
    have hne : path ≠ parent := by
      rintro rfl
      rw [hd] at hc
      cases hc
    obtain ⟨node, hf⟩ := contains_iff_find?.1 hc
    refine ⟨node, hf, ?_⟩
    rw [find?_grow, if_neg hne, if_pos rfl, hf]
    rfl
  others q hpath hparent := by rw [find?_grow, if_neg (Ne.symm hpath), if_neg (Ne.symm hparent)]
  privileges := rfl

/-! ## Attempts -/

/-- How an attempt goes to add a node of a valid name below a normal path. -/
structure AddsBelow (r : Repository) (parent name kind : String)
    (attempt : Except ContentError (String × Repository)) : Prop where
  duplicate : ∀ q, attempt = .error (.duplicateNode q) ↔
    q = Path.join parent name ∧ r.contains q = true
  missing : ∀ q, attempt = .error (.nodeNotFound q) ↔ q = parent ∧ r.contains q = false
  exclusive : ¬(r.contains (Path.join parent name) = true ∧ r.contains parent = false)
  succeeds : ∀ path, (∃ s, attempt = .ok (path, s)) ↔
    path = Path.join parent name ∧ r.contains path = false ∧ r.contains parent = true
  gains : ∀ path s, attempt = .ok (path, s) → r.Gains parent path kind s
  fails : ∀ e, attempt = .error e →
    e = .duplicateNode (Path.join parent name) ∨ e = .nodeNotFound parent

theorem addNode_of_name {e : PathError} (hn : Path.checkName name = .error e) :
    r.addNode parent name kind = .error (.invalidPath e) := by
  rw [addNode_eq, hn]
  rfl

theorem addNode_of_parent {e : PathError} (hn : Path.checkName name = .ok ())
    (hp : Path.normalize parent = .error e) :
    r.addNode parent name kind = .error (.invalidPath e) := by
  rw [addNode_eq, hn, hp]
  rfl

section Valid

variable (hn : Path.checkName name = .ok ()) (hp : Path.normalize parent = .ok p)
include hn hp

theorem addNode_eq_error {e : ContentError} : r.addNode parent name kind = .error e ↔
    (e = .duplicateNode (Path.join p name) ∧ r.contains (Path.join p name) = true) ∨
      (e = .nodeNotFound p ∧ r.contains (Path.join p name) = false ∧ r.contains p = false) := by
  rw [addNode_of_ok kind (Path.checkName_eq_ok.1 hn) hp]
  cases r.contains (Path.join p name) <;> cases r.contains p <;> simp [eq_comm]

theorem exists_addNode_eq_ok : (∃ s, r.addNode parent name kind = .ok (path, s)) ↔
    path = Path.join p name ∧ r.contains path = false ∧ r.contains p = true := by
  constructor
  · rintro ⟨s, hs⟩
    obtain ⟨q, -, hq, hpath, hd, hc, -⟩ := addNode_eq_ok.1 hs
    rw [hp] at hq
    cases hq
    exact ⟨hpath, hd, hc⟩
  · rintro ⟨hpath, hd, hc⟩
    exact ⟨_, addNode_eq_ok.2 ⟨p, Path.checkName_eq_ok.1 hn, hp, hpath, hd, hc, rfl⟩⟩

/-- Above a node there is a node, so a place that is taken is below one. -/
theorem IsTree.contains_of_join (h : r.IsTree) (hc : r.contains (Path.join p name) = true) :
    r.contains p = true := by
  have hname := Path.checkName_eq_ok.1 hn
  obtain ⟨above, habove⟩ := h.exists_parentOf hc (Path.join_ne_root hname)
  obtain ⟨other, hsplit⟩ := h.split?_eq habove
  rw [Path.split?_join (Path.normalize_normal hp) hname] at hsplit
  rw [(Prod.mk.inj (Option.some.inj hsplit)).1]
  exact (h.parentOf_eq habove).1

theorem IsTree.addsBelow (h : r.IsTree) (kind : String) :
    r.AddsBelow p name kind (r.addNode parent name kind) := by
  have hexclusive := h.contains_of_join hn hp
  refine ⟨fun q => ?_, fun q => ?_, fun hboth => ?_, fun _ => exists_addNode_eq_ok hn hp,
    fun path s hs => ?_, fun e he => ?_⟩
  · rw [addNode_eq_error hn hp]
    grind
  · rw [addNode_eq_error hn hp]
    grind
  · rw [hexclusive hboth.1] at hboth
    cases hboth.2
  · obtain ⟨q, -, hq, rfl, hd, hc, rfl⟩ := addNode_eq_ok.1 hs
    rw [hp] at hq
    cases hq
    exact gains_grow hd hc
  · exact ((addNode_eq_error hn hp).1 he).imp And.left And.left

end Valid

/-- The path of a new node may be written in any way. -/
theorem addPath_of_normalize {text : String} (h : Path.normalize text = .ok path) :
    r.addPath text kind = r.addPath path kind := by
  rw [addPath_eq, addPath_eq, h, Path.normalize_normal h]

/-- **Nodes are added exactly** where there is a place for them: on errors nothing changes, and which
of them is met is told by the texts and by what is there. Whether parent and name are given or the
path makes no difference. -/
theorem Live.adds_exactly (h : r.Live) (kind : String) :
    (∀ parent name,
      ((∃ cause, r.addNode parent name kind = .error (.invalidPath cause)) ↔
        (∃ e, Path.checkName name = .error e) ∨ ∃ e, Path.normalize parent = .error e) ∧
      (∀ p, Path.checkName name = .ok () → Path.normalize parent = .ok p →
        r.AddsBelow p name kind (r.addNode parent name kind)) ∧
      ∀ e, r.addNode parent name kind = .error e →
        (Change.addNode parent name kind).left r = r) ∧
    (∀ text q, Path.normalize text = .ok q → q ≠ Path.root → ∃ parent name,
      Path.split? q = some (parent, name) ∧
      r.addPath text kind = r.addNode parent name kind ∧
      ∀ cause, r.addPath text kind ≠ .error (.invalidPath cause)) ∧
    (∀ text e, r.addPath text kind = .error e → (Change.addPath text kind).left r = r) ∧
    r.addPath Path.root kind = .error (.duplicateNode Path.root) := by
  refine ⟨fun parent name => ⟨?_, fun p hn hp => h.isTree.addsBelow hn hp kind,
    Change.atomic_addNode parent name kind r⟩, fun text q hq hne => ?_,
    fun text => Change.atomic_addPath text kind r, addPath_root r kind⟩
  · cases hn : Path.checkName name with
    | error e => simp [addNode_of_name hn]
    | ok _ =>
      cases hp : Path.normalize parent with
      | error e => simp [addNode_of_parent hn hp]
      | ok p => simp [addNode_eq_error hn hp]
  · obtain ⟨parent, name, hp, hname, rfl⟩ := Path.exists_join (Path.normalize_normal hq) hne
    rw [addPath_of_normalize hq, addPath_join hp hname]
    refine ⟨parent, name, Path.split?_join hp hname, rfl, fun cause => ?_⟩
    rw [ne_eq, addNode_eq_error (Path.checkName_eq_ok.2 hname) hp]
    simp

/-- A file below a folder, below no node, and by a name that is none. -/
theorem adds_exactly_file : ∃ r s : Repository, r.Live ∧ r.paths = ["/", "/a"] ∧
    r.addNode "/a/" "b" "file" = .ok ("/a/b", s) ∧ r.Gains "/a" "/a/b" "file" s ∧
    r.addNode "/c" "b" "file" = .error (.nodeNotFound "/c") ∧
    (∃ cause, r.addNode "/a" ".." "file" = .error (.invalidPath cause)) ∧
    (∃ parent name, Path.split? "/a/b" = some (parent, name) ∧
      r.addPath "/a/b/" "file" = r.addNode parent name "file" ∧
      ∀ cause, r.addPath "/a/b/" "file" ≠ .error (.invalidPath cause)) := by
  have hfolder : Repository.initial.addPath "/a" "folder" =
      .ok ("/a", Repository.initial.grow "/" "/a" "folder") := rfl
  have hlive := Live.addPath (.reachable .initial) hfolder
  obtain ⟨hnode, hpath, -⟩ := hlive.adds_exactly "file"
  have hbelow := (hnode "/a/" "b").2.1 "/a" rfl rfl
  have hmissing := (hnode "/c" "b").2.1 "/c" rfl rfl
  obtain ⟨s, hs⟩ := (hbelow.succeeds "/a/b").2 ⟨rfl, rfl, rfl⟩
  exact ⟨_, s, hlive, rfl, hs, hbelow.gains _ s hs, (hmissing.missing "/c").2 ⟨rfl, rfl⟩,
    (hnode "/a" "..").1.2 (.inl ⟨_, rfl⟩), hpath "/a/b/" "/a/b" rfl (by decide)⟩

end AclTree.Repository
