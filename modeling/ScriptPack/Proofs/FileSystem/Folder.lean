import ScriptPack.Proofs.FileSystem.Operations

/-!
Working in one folder. A folder is held by a path if the path does not lead through the folder
itself, so that it still leads there whatever happens inside; what an operation does to an entry is
then a change of the list of entries.
-/

namespace ScriptPack

open Node Lookup

/-- A path leads to a folder with the given entries, and does so without going through it. -/
structure Holds (root : Node) (path : String) (loc : Location) (entries : List (String × Node)) :
    Prop where
  at?_eq : root.at? loc = some (.folder entries)
  free : place? (root.remove loc) false path = .ok (.free loc)

namespace Holds

variable {root : Node} {path : String} {loc loc' : Location}
  {entries entries' : List (String × Node)}

theorem ne_nil (h : Holds root path loc entries) : loc ≠ [] := ne_nil_of_place?_free h.free

theorem found (h : Holds root path loc entries) (hw : root.WellFormed) (follow : Bool) :
    place? root follow path = .ok (.found loc (.folder entries)) := by
  have hf : false = true → follow = true := nofun
  exact place?_carry_found (Keeps.remove hw h.ne_nil) hf h.free h.at?_eq nofun

theorem leads (h : Holds root path loc entries) (hw : root.WellFormed)
    (hs : Path.endsWithSeparator path = false) : Leads root path loc entries := by
  obtain ⟨hwalk, hnul⟩ := place?_eq_walk (h.found hw true)
  rw [steps, hs] at hwalk
  exact ⟨by simpa using hwalk, hnul⟩

/-- The folder is held whatever its entries are. -/
theorem put (h : Holds root path loc entries) (hw : root.WellFormed)
    (entries' : List (String × Node)) :
    Holds (put loc (.folder entries') root) path loc entries' :=
  ⟨at?_put_of_some hw h.at?_eq, by rw [remove_put hw h.ne_nil]; exact h.free⟩

/-- A folder that is put at a free place is held. -/
theorem of_free (hw : root.WellFormed) (h : place? root false path = .ok (.free loc))
    (entries : List (String × Node)) :
    Holds (Node.put loc (.folder entries) root) path loc entries := by
  obtain ⟨init, name, above, rfl, hp, hn⟩ := place?_free h
  refine ⟨at?_put_self hw hp, ?_⟩
  rw [remove_put_of_none hw (by simp) (at?_of_place?_free h)]
  exact h

end Holds

namespace Files

open Effect

variable {w : World} {dir name other : String} {loc : Location} {node : Node} {content : Bytes}
  {modified : Stamp} {entries : List (String × Node)}

section

variable (hs : w.stepsLeft = none) (hw : w.root.WellFormed) (hd : Path.IsNormal dir)
  (h : Holds w.root dir loc entries)

include hd in
theorem absolute_child (name : String) : absolute w (dir ++ "/" ++ name) = dir ++ "/" ++ name := by
  rw [String.append_assoc]
  exact absolute_of_isAbsolute (Path.isAbsolute_append hd.isAbsolute _)

include hd in
theorem absolute_normal : absolute w dir = dir := absolute_of_isAbsolute hd.isAbsolute

include hw hd h in
theorem place?_child_free (hn : IsName name) (hl : entries.lookup name = none) (follow : Bool) :
    place? w.root follow (absolute w (dir ++ "/" ++ name)) = .ok (.free (loc ++ [name])) := by
  rw [absolute_child hd]
  exact (h.leads hw hd.endsWithSeparator).free_child hn hl follow

include hw hd h in
theorem place?_child_found (hl : entries.lookup name = some node) (follow : Bool)
    (hf : follow = true → ∀ target, node ≠ .link target) :
    place? w.root follow (absolute w (dir ++ "/" ++ name)) =
      .ok (.found (loc ++ [name]) node) := by
  rw [absolute_child hd]
  exact (h.leads hw hd.endsWithSeparator).found_child hl hw follow hf

include hw hd h in
theorem exists?_child_free (hn : IsName name) (hl : entries.lookup name = none) :
    exists? (dir ++ "/" ++ name) w = (.ok false, w) := by
  refine exists?_of_not ?_
  rintro ⟨loc', node, hp⟩
  rw [place?_child_free hw hd h hn hl] at hp
  cases hp

include hw hd h in
theorem exists?_child_found (hl : entries.lookup name = some node)
    (hf : ∀ target, node ≠ .link target) :
    exists? (dir ++ "/" ++ name) w = (.ok true, w) :=
  exists?_of_found (place?_child_found hw hd h hl true fun _ => hf)

include hw hd h in
theorem list_held : list dir w = (.ok entries, w) :=
  list_folder (by rw [absolute_normal hd]; exact h.found hw true)

include hw hd h in
theorem read_child (hl : entries.lookup name = some (.file content modified)) :
    read (dir ++ "/" ++ name) w = (.ok content, w) :=
  read_file (place?_child_found hw hd h hl true nofun)

include hw hd h in
theorem size_child (hl : entries.lookup name = some node) :
    size (dir ++ "/" ++ name) w = (.ok node.size, w) :=
  size_found (place?_child_found hw hd h hl false nofun)

include hs hw hd h in
theorem removeAll_child (hn : IsName name) :
    Does (removeAll (dir ++ "/" ++ name)) w ()
      (put loc (.folder (eraseEntry name entries)) w.root) := by
  have hwf := hw.at? h.at?_eq
  cases hl : entries.lookup name with
  | none =>
      rw [eraseEntry_of_lookup_eq_none hwf.sorted hl, put_at? hw h.at?_eq]
      exact does_of_eq (removeAll_free (place?_child_free hw hd h hn hl false))
  | some node =>
      rw [← remove_child hw h.at?_eq]
      exact removeAll_found (by simp) hs hw (place?_child_found hw hd h hl false nofun)

include hs hw hd h in
/-- Writing an entry that is not there yet or is a file. -/
theorem writeFile_child (hn : IsName name)
    (hl : ∀ node, entries.lookup name = some node → node.isFile = true) (content : Bytes) :
    Does (writeFile (dir ++ "/" ++ name) content) w ()
      (put loc (.folder (setEntry name (.file content w.stamp) entries)) w.root) := by
  rw [← put_child hw h.at?_eq]
  cases hc : entries.lookup name with
  | none => exact writeFile_does hs hw (place?_child_free hw hd h hn hc true) nofun content
  | some node =>
      cases node with
      | folder entries' => exact absurd (hl _ hc) nofun
      | link target => exact absurd (hl _ hc) nofun
      | file old modified =>
          exact writeFile_does hs hw (place?_child_found hw hd h hc true nofun) nofun content

include hs hw hd h in
/-- An entry gets a new name, which is free or, like the entry itself, names no folder. -/
theorem rename_child (hn : IsName other) (hne : name ≠ other)
    (hl : entries.lookup name = some node)
    (hk : ∀ there, entries.lookup other = some there →
      node.isFolder = false ∧ there.isFolder = false) :
    Does (rename (dir ++ "/" ++ name) (dir ++ "/" ++ other)) w ()
      (put loc (.folder (setEntry other node (eraseEntry name entries))) w.root) := by
  have hwf := hw.at? h.at?_eq
  have hpre : ¬loc ++ [name] <+: loc ++ [other] := by
    rw [List.prefix_append_right_inj]
    simpa using hne
  have hrem : w.root.remove (loc ++ [name]) = put loc (.folder (eraseEntry name entries)) w.root :=
    remove_child hw h.at?_eq
  have heq : put loc (.folder (setEntry other node (eraseEntry name entries))) w.root =
      put (loc ++ [other]) node (w.root.remove (loc ++ [name])) := by
    have hat : (w.root.remove (loc ++ [name])).at? loc =
        some (.folder (eraseEntry name entries)) := by
      rw [hrem, at?_put_of_some hw h.at?_eq]
    rw [put_child (hw.remove _) hat, hrem, put_put hw]
  rw [heq]
  have hsource := place?_child_found hw hd h hl false nofun
  cases hc : entries.lookup other with
  | none => exact rename_does hs hsource (place?_child_free hw hd h hn hc false) hpre trivial
  | some there =>
      exact rename_does hs hsource (place?_child_found hw hd h hc false nofun) hpre (hk there hc)

end

end Files

end ScriptPack
