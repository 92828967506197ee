import ScriptPack.Proofs.Cache.Confinement
import ScriptPack.Proofs.Cache.ReadBack
import ScriptPack.Proofs.Cache.Sharing

/-!
Ids that are safe. The artifact of a safe id is directly in the folder of the cache. The ids that are
minted are safe, nothing exists under them yet, and they are told apart from all that belongs to
other scripts.
-/

namespace ScriptPack.Cache

open Effect Node Lookup Files

variable {cache : Cache} {w : World} {root id signature current path : String}

theorem isStep_of_isSafeId (h : isSafeId id = true) : Path.IsStep id :=
  isStep_of_isName (isName_of_isSafeId h)

/-- The artifact of a safe id is directly in the folder of the root, in whichever form the root is
given, and its path has the id at the end as it is. -/
theorem artifactPath_of_isSafeId (habs : Path.isAbsolute root = true) (hid : isSafeId id = true)
    (current : String) :
    artifactPath root id = Path.closed (Path.normalize root) ++ id ∧
      (Path.normalize root = Path.resolve current root ∨
        Path.normalize root = Path.closed (Path.resolve current root)) ∧
      Path.directory (artifactPath root id) = Path.resolve current root ∧
      Path.baseName (artifactPath root id) = id ∧
      Path.names (artifactPath root id) = Path.names (Path.resolve current root) ++ [id] ∧
      ∀ other, isSafeId other = true → artifactPath root other = artifactPath root id →
        other = id := by
  have hstep := isStep_of_isSafeId hid
  have hnames := Path.names_join habs hstep current
  refine ⟨Path.join_eq_closed habs hstep, Path.normalize_of_isAbsolute habs current,
    Path.directory_join habs hstep current, ?_, hnames, fun other hother heq => ?_⟩
  · rw [Path.baseName, artifactPath, hnames, List.getLast?_concat]
    rfl
  · have hnames' := Path.names_join habs (isStep_of_isSafeId hother) current
    rw [artifactPath, artifactPath] at heq
    rw [heq, hnames] at hnames'
    exact (List.cons.inj (List.append_cancel_left hnames')).1.symm

theorem artifactPath_of_isSafeId_dots :
    Path.isAbsolute "//srv/./cache/../.exepack//cache/" = true ∧ isSafeId "..-a.b_2" = true ∧
      artifactPath "//srv/./cache/../.exepack//cache/" "..-a.b_2" = "/srv/.exepack/cache/..-a.b_2" ∧
      Path.directory (artifactPath "//srv/./cache/../.exepack//cache/" "..-a.b_2") =
        "/srv/.exepack/cache" := by
  have habs : Path.isAbsolute "//srv/./cache/../.exepack//cache/" = true := by decide
  have hid : isSafeId "..-a.b_2" = true := by decide
  obtain ⟨hpath, -, hdirectory, -⟩ := artifactPath_of_isSafeId habs hid "/W"
  refine ⟨habs, hid, hpath.trans ?_, hdirectory.trans ?_⟩ <;> decide +kernel

/-! ### Minted ids -/

/-- Names under which different signatures are kept are different, as long as the signatures have
different stems. -/
theorem not_mem_names_of_stem_ne {signature' : String} {now now' : Number} {n n' : Nat}
    (hd : Signature.IsDigest signature) (hd' : Signature.IsDigest signature')
    (hs : stem signature' ≠ stem signature) :
    ∀ name ∈ [numberedId (baseId signature now) n, partialName (numberedId (baseId signature now) n)],
      name ∉ [numberedId (baseId signature' now') n',
        partialName (numberedId (baseId signature' now') n')] := by
  have hid := (isId_baseId hd now).numbered n
  have hid' := (isId_baseId hd' now').numbered n'
  have hne : numberedId (baseId signature now) n ≠ numberedId (baseId signature' now') n' :=
    fun heq => hs (stem_eq_of_numberedId hd hd' heq).symm
  intro name hname hmem
  simp only [List.mem_cons, List.not_mem_nil, or_false] at hname hmem
  rcases hname with rfl | rfl <;> rcases hmem with hmem | hmem
  · exact hne hmem
  · exact hid.ne_partial _ hmem
  · exact hid'.ne_partial _ hmem.symm
  · exact hne (partialName_injective hmem)

/-- Minting ends with the first of the numbered ids under which nothing exists, and would end with
it after any larger number of tries. The id is safe, it cannot be taken for the document or for
something that belongs to it, and other signatures neither use it nor the name of its partial
copy. -/
theorem mintId_fresh (hroot : IsFolderAt w.root [])
    (hdir : cache.directory = Path.resolve current path) (hd : Signature.IsDigest signature)
    (hclock : Timestamp.ofNumber w.clock ≠ .invalid) :
    ∃ n id, id = numberedId (baseId signature w.clock) n ∧
      cache.mintId signature w = (.ok id, w) ∧
      (∀ tries, n ≤ tries → cache.freeId (baseId signature w.clock) 0 tries w = (.ok id, w)) ∧
      (∀ k < n, cache.Taken w (numberedId (baseId signature w.clock) k)) ∧
      cache.Untaken w id ∧
      isSafeId id = true ∧
      Text.startsWith id documentName = false ∧
      ∀ (cache' : Cache) (w' w'' : World) (signature' id' : String),
        Signature.IsDigest signature' → stem signature' ≠ stem signature →
        cache'.mintId signature' w' = (.ok id', w'') →
        ∀ name ∈ [id, partialName id], name ∉ [id', partialName id'] := by
  obtain ⟨n, hx, htaken, hfree⟩ := mintId_first hroot hdir hd
  refine ⟨n, _, rfl, hx, fun tries ht => freeId_of_first htaken hfree (Nat.zero_le n) (by omega),
    htaken, hfree, isSafeId_numberedId hd hclock n,
    ((isId_baseId hd w.clock).numbered n).startsWith_documentName, ?_⟩
  intro cache' w' w'' signature' id' hd' hs hx'
  obtain ⟨n', hx''⟩ := mintId_numbered cache' signature' w'
  cases hx'.symm.trans hx''
  exact not_mem_names_of_stem_ne hd hd' hs

/-- Before the epoch, and when two ids have been given out in the same second. -/
def minted : World := { World.start (.folder [("W", .folder [("c", .folder
    [("build_0123456789abcdef_-2", .folder []),
      ("build_0123456789abcdef_-2_1", .file [] ⟨0, 0⟩)])])]) with clock := .finite (-1500) }

theorem mintId_fresh_minted :
    let cache : Cache := ⟨⟨true, "/W/c", 1, 30⟩, ⟨"/W/c", []⟩⟩
    let signature := "0123456789abcdef0123456789abcdef0123456789abcdef0123456789abcdef"
    IsFolderAt minted.root [] ∧ cache.directory = Path.resolve "/" "/W/./c/" ∧
      Signature.IsDigest signature ∧ Timestamp.ofNumber minted.clock ≠ .invalid ∧
      cache.mintId signature minted = (.ok "build_0123456789abcdef_-2_2", minted) ∧
      cache.Untaken minted "build_0123456789abcdef_-2_2" ∧
      isSafeId "build_0123456789abcdef_-2_2" = true := by
  intro cache signature
  have hroot : IsFolderAt minted.root [] := ⟨_, rfl⟩
  have hdir : cache.directory = Path.resolve "/" "/W/./c/" := by decide +kernel
  have hd : Signature.IsDigest signature :=
    ⟨List.all_iff_forall_prop.mp (by decide +kernel), by decide +kernel⟩
  have hclock : Timestamp.ofNumber minted.clock ≠ .invalid := by decide +kernel
  obtain ⟨n, id, -, hx, -, -, hfree, hsafe, -⟩ := mintId_fresh hroot hdir hd hclock
  have hvalue : (cache.mintId signature minted).1.toOption = some "build_0123456789abcdef_-2_2" := by
    decide +kernel
  rw [hx] at hvalue
  cases hvalue
  exact ⟨hroot, hdir, hd, hclock, hx, hfree, hsafe⟩

end ScriptPack.Cache
