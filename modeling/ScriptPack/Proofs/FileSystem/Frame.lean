import ScriptPack.Proofs.FileSystem.Copying
import ScriptPack.Proofs.FileSystem.Stopping

/-!
What operations on files leave alone, also when they fail or are stopped on the way. Removing stays
within what is removed; copying stays within the entry that it copies to, if no link is there that
would lead away from it.
-/

namespace ScriptPack

open Node Lookup Effect

/-- The trees differ at most in what is at a location. -/
structure Node.Within (loc : Location) (root root' : Node) : Prop where
  proper : loc ≠ []
  before : root.WellFormed
  after : root'.WellFormed
  alters : ∃ f, root' = alter f loc root

/-- The trees differ at most in what is at a location, and folders and links are still there. -/
structure Node.Extends (loc : Location) (root root' : Node) : Prop extends Within loc root root' where
  keeps : Keeps root root'

namespace Node

variable {root root' root'' new : Node} {loc other tail : Location} {name : String}
  {entries : List (String × Node)}

namespace Within

theorem refl (h : root.WellFormed) (hl : loc ≠ []) : Within loc root root :=
  ⟨hl, h, h, id, (alter_id h rfl).symm⟩

theorem trans (h : Within loc root root') (h' : Within loc root' root'') :
    Within loc root root'' := by
  obtain ⟨f, rfl⟩ := h.alters
  obtain ⟨g, rfl⟩ := h'.alters
  exact ⟨h.proper, h.before, h'.after, _, alter_alter h.before h.proper⟩

instance : Trans (Within loc) (Within loc) (Within loc) := ⟨trans⟩

theorem weaken (h : Within (loc ++ tail) root root') (hl : loc ≠ []) : Within loc root root' := by
  refine ⟨hl, h.before, h.after, ?_⟩
  obtain ⟨f, rfl⟩ := h.alters
  by_cases ht : tail = []
  · exact ⟨f, by rw [ht, List.append_nil]⟩
  · exact ⟨_, alter_append hl ht⟩

theorem put (h : root.WellFormed) (hl : loc ≠ []) (hn : ∀ name ∈ loc, IsName name)
    (hnew : new.WellFormed) : Within loc root (put loc new root) :=
  ⟨hl, h, h.put hn hnew, _, rfl⟩

theorem remove (h : root.WellFormed) (hl : loc ≠ []) : Within loc root (root.remove loc) :=
  ⟨hl, h, h.remove loc, _, rfl⟩

/-- Elsewhere a node stays, a folder perhaps with other entries. -/
theorem bare_eq (h : Within loc root root') (hp : ¬loc <+: other) :
    (root'.at? other).map bare = (root.at? other).map bare := by
  obtain ⟨f, rfl⟩ := h.alters
  exact at?_alter_bare h.before hp

theorem apart (h : Within loc root root') (hp : ¬loc <+: other) (hp' : ¬other <+: loc) :
    root'.at? other = root.at? other := by
  obtain ⟨f, rfl⟩ := h.alters
  exact at?_alter_apart h.before hp hp'

/-- A change of one entry of a folder. -/
theorem child (h : Within (loc ++ [name]) root root') (hat : root.at? loc = some (.folder entries)) :
    ∃ entries', root' = Node.put loc (.folder entries') root ∧ WellFormed (.folder entries') ∧
      ∀ key, key ≠ name → entries'.lookup key = entries.lookup key := by
  obtain ⟨f, rfl⟩ := h.alters
  have heq : alter f (loc ++ [name]) root =
      Node.put loc (.folder (alterEntry name f entries)) root := alter_append_of_at? h.before hat (by simp)
  refine ⟨_, heq, ?_, fun key hne => lookup_alterEntry_of_ne hne⟩
  have hafter := h.after
  rw [heq] at hafter
  exact hafter.at? (at?_put_of_some h.before hat)

end Within

namespace Extends

theorem refl (h : root.WellFormed) (hl : loc ≠ []) : Extends loc root root :=
  ⟨.refl h hl, .refl root⟩

theorem trans (h : Extends loc root root') (h' : Extends loc root' root'') :
    Extends loc root root'' :=
  ⟨h.toWithin.trans h'.toWithin, h.keeps.trans h'.keeps⟩

instance : Trans (Extends loc) (Extends loc) (Extends loc) := ⟨trans⟩

theorem weaken (h : Extends (loc ++ tail) root root') (hl : loc ≠ []) : Extends loc root root' :=
  ⟨h.toWithin.weaken hl, h.keeps⟩

theorem put_of_none (h : root.WellFormed) (hl : loc ≠ []) (hn : ∀ name ∈ loc, IsName name)
    (hnew : new.WellFormed) (hnone : root.at? loc = none) : Extends loc root (put loc new root) :=
  ⟨.put h hl hn hnew, .put_of_none h hnone⟩

/-- A file takes the place of nothing or of a file. -/
theorem put_file {content : Bytes} {modified : Stamp} (h : root.WellFormed) (hl : loc ≠ [])
    (hn : ∀ name ∈ loc, IsName name) (hat : ∀ node, root.at? loc = some node → node.isFile = true) :
    Extends loc root (put loc (.file content modified) root) := by
  cases hnode : root.at? loc with
  | none => exact .put_of_none h hl hn (.file _ _) hnode
  | some node =>
      cases node with
      | folder below => exact absurd (hat _ hnode) nofun
      | link target => exact absurd (hat _ hnode) nofun
      | file content' modified' => exact ⟨.put h hl hn (.file _ _), .put_file h hnode _⟩

theorem remove_file {content : Bytes} {modified : Stamp} (h : root.WellFormed) (hl : loc ≠ [])
    (hat : root.at? loc = some (.file content modified)) : Extends loc root (root.remove loc) :=
  ⟨.remove h hl, .remove_file h hat⟩

/-- A path to a folder leads to it after a change of one of its entries. -/
theorem leads {path : String} (h : Extends (loc ++ [name]) root root')
    (hl : Leads root path loc entries) :
    ∃ entries', Leads root' path loc entries' ∧
      ∀ key, key ≠ name → entries'.lookup key = entries.lookup key := by
  obtain ⟨entries', heq, -, hsame⟩ := h.toWithin.child hl.at?_eq
  refine ⟨entries', hl.keep h.keeps ?_, hsame⟩
  rw [heq]
  exact at?_put_of_some h.before hl.at?_eq

/-- A new folder is what the path with its name leads to. -/
theorem leads_empty {path : String} (h : Extends (loc ++ [name]) root root')
    (hl : Leads root path loc entries) (heq : root' = put (loc ++ [name]) .empty root) :
    Leads root' (path ++ "/" ++ name) (loc ++ [name]) [] := by
  obtain ⟨entries', hl', -⟩ := h.leads hl
  refine hl'.folder_child h.after ?_
  rw [← at?_folder_child hl'.at?_eq, heq]
  exact at?_put_self h.before hl.at?_eq

end Extends

end Node

namespace Files

variable {w : World} {loc : Location} {name dir target : String} {node : Node}
  {entries : List (String × Node)}

/-! ### Steps -/

/-- A change that is made in one step is made or not made. -/
theorem step_moves {R : Node → Node → Prop} {g : Node → Node} (hr : R w.root w.root)
    (hg : R w.root (g w.root)) : Moves R (do step; changeRoot g) w := by
  have hroot := step_root w
  rw [Moves]
  cases hx : step w with
  | mk result w' =>
      rw [hx] at hroot
      replace hroot : w'.root = w.root := hroot
      cases result with
      | error stop =>
          rw [bind_error hx, hroot]
          exact hr
      | ok a =>
          rw [bind_ok hx]
          exact hroot ▸ hg

theorem removeStep_within (hw : w.root.WellFormed) (hl : loc ≠ []) :
    Moves (Within loc) (removeStep loc) w :=
  step_moves (.refl hw hl) (.remove hw hl)

theorem removeEntries_within {entries : List (String × Node)}
    (ih : ∀ e ∈ entries, ∀ loc w, w.root.WellFormed → loc ≠ [] →
      Moves (Within loc) (removeNode loc e.2) w)
    (hw : w.root.WellFormed) (hl : loc ≠ []) : Moves (Within loc) (removeEntries loc entries) w := by
  induction entries generalizing w with
  | nil => exact .pure (.refl hw hl) ()
  | cons e rest ihRest =>
      have hfirst := (ih e List.mem_cons_self (loc ++ [e.1]) w hw (by simp)).mono
        fun _ _ h => h.weaken hl
      refine .bind hfirst fun _ w' hx => ?_
      rw [Moves, hx] at hfirst
      exact ihRest (fun e' he => ih e' (List.mem_cons_of_mem _ he)) hfirst.after

/-- Removing a node changes nothing elsewhere, however far it comes. -/
theorem removeNode_within (node : Node) :
    ∀ loc w, w.root.WellFormed → loc ≠ [] → Moves (Within loc) (removeNode loc node) w := by
  induction node using Node.induct with
  | file content modified => exact fun loc w hw hl => removeStep_within hw hl
  | link target => exact fun loc w hw hl => removeStep_within hw hl
  | folder entries ih =>
      intro loc w hw hl
      have hentries := removeEntries_within ih hw hl
      refine .bind hentries fun _ w' hx => ?_
      rw [Moves, hx] at hentries
      exact removeStep_within hentries.after hl

theorem removeAll_within {path : String} (hw : w.root.WellFormed) (hl : loc ≠ [])
    (hp : ∀ place, place? w.root false (absolute w path) = .ok place → place.location = loc) :
    Moves (Within loc) (removeAll path) w := by
  have hrefl : Within loc w.root w.root := .refl hw hl
  cases hplace : place? w.root false (absolute w path) with
  | error error =>
      refine .of_root_eq ?_ hrefl
      by_cases hne : error = .noEntry
      · rw [removeAll_noEntry (hne ▸ hplace)]
      · rw [removeAll_error hplace hne]
  | ok place =>
      have hloc := hp place hplace
      cases place with
      | free loc' => exact .of_root_eq (by rw [removeAll_free hplace]) hrefl
      | found loc' node =>
          obtain rfl : loc' = loc := hloc
          have hnil : loc'.isEmpty = false := by simpa using hl
          have hbegin : removeAll path w = removeNode loc' node w := by
            rw [removeAll, bind_ok (attempt_ok (lookup_ok hplace))]
            simp only [hnil, Bool.false_eq_true, if_false]
          rw [Moves, hbegin]
          exact removeNode_within node loc' w hw hl

theorem putStep_moves {R : Node → Node → Prop} (hr : R w.root w.root)
    (hput : R w.root (put loc node w.root)) : Moves R (putStep loc node) w :=
  step_moves hr hput

/-- A new name is given, or not, to what the old one names. -/
theorem rename_moves {R : Node → Node → Prop} {source target : String} (hr : R w.root w.root)
    (hmove : ∀ origin node place, place? w.root false (absolute w source) = .ok (.found origin node) →
      place? w.root false (absolute w target) = .ok place →
      R w.root (put place.location node (w.root.remove origin))) :
    Moves R (rename source target) w := by
  rw [rename, require, bind_assoc]
  refine .lookup_bind hr fun place hsource => ?_
  cases place with
  | free origin => exact .failSystem hr _
  | found origin node =>
      refine .lookup_bind hr fun place htarget => ?_
      have hgo : Moves R (do
          step
          changeRoot fun root => put place.location node (root.remove origin)) w :=
        step_moves hr (hmove origin node place hsource htarget)
      cases place with
      | free goal =>
          simp only
          split
          · exact .pure hr ()
          · split
            · exact .failSystem hr _
            · cases node <;> exact hgo
      | found goal there =>
          simp only
          split
          · exact .pure hr ()
          · split
            · exact .failSystem hr _
            · split <;> first
                | exact hr
                | exact hgo

theorem putStep_extends (hw : w.root.WellFormed) (hl : loc ≠ []) (hn : ∀ name ∈ loc, IsName name)
    (hnode : node.WellFormed) (hnone : w.root.at? loc = none) :
    Moves (Extends loc) (putStep loc node) w :=
  putStep_moves (.refl hw hl) (.put_of_none hw hl hn hnode hnone)

/-- What a step that returns has done. -/
theorem root_of_step {g : Node → Node} {w' : World} {a : Unit}
    (hx : (do step; changeRoot g : Effect Unit) w = (.ok a, w')) : w'.root = g w.root := by
  obtain ⟨_, w₁, hstep, hend⟩ := bind_eq_ok hx
  have hroot := step_root w
  rw [hstep] at hroot
  cases hend
  exact congrArg g hroot

theorem removeStep_extends {content : Bytes} {modified : Stamp} (hw : w.root.WellFormed)
    (hl : loc ≠ []) (hat : w.root.at? loc = some (.file content modified)) :
    Moves (Extends loc) (removeStep loc) w :=
  step_moves (.refl hw hl) (.remove_file hw hl hat)

/-- Writing leaves a file with some of the bytes, unless it is stopped before it begins. -/
theorem writeAt_root (hw : w.root.WellFormed) (content : Bytes) :
    (writeAt loc content w).2.root = w.root ∨
      ∃ bytes, (writeAt loc content w).2.root = put loc (.file bytes w.stamp) w.root := by
  cases hs : w.stepsLeft with
  | none =>
      obtain ⟨w', hx, he⟩ := writeAt_does hs hw loc content
      rw [hx]
      exact .inr ⟨content, he.root_eq⟩
  | some n =>
      obtain ⟨root, directory, clock, stamp, id, environment, switch, lines, steps⟩ := w
      obtain rfl : steps = some n := hs
      cases n with
      | zero => exact .inl rfl
      | succ n =>
          refine .inr ⟨content.take n, ?_⟩
          have hbegin : writeAt loc content ⟨root, directory, clock, stamp, id, environment, switch,
              lines, some (n + 1)⟩ = fill loc content ⟨put loc (.file [] stamp) root, directory,
                clock, stamp, id, environment, switch, lines, some n⟩ := rfl
          rw [hbegin, fill_some (n := n) rfl]
          exact put_put hw

theorem writeAt_extends (hw : w.root.WellFormed) (hl : loc ≠ []) (hn : ∀ name ∈ loc, IsName name)
    (hat : ∀ node, w.root.at? loc = some node → node.isFile = true) (content : Bytes) :
    Moves (Extends loc) (writeAt loc content) w := by
  rcases @writeAt_root w loc hw content with h | ⟨bytes, h⟩
  · exact .of_root_eq h (.refl hw hl)
  · rw [Moves, h]
    exact .put_file hw hl hn hat

/-! ### Copying -/

/-- There is no link at a name or below it. -/
def Linkless (entries : List (String × Node)) (name : String) : Prop :=
  ∀ there, entries.lookup name = some there → there.LinkFree

section

variable {path : String} (hw : w.root.WellFormed) (h : Leads w.root dir loc entries)
  (hn : IsName name) (ho : Linkless entries name) (hpath : absolute w path = dir ++ "/" ++ name)

include hw h hn in
theorem isName_of_mem_child : ∀ n ∈ loc ++ [name], IsName n := by
  intro n hm
  rcases List.mem_append.mp hm with hm | hm
  · exact hw.isName_of_mem h.at?_eq hm
  · rw [List.mem_singleton.mp hm]
    exact hn

include hw h hn ho hpath in
/-- A path to a name without links leads to the entry itself. -/
theorem place?_linkless (follow : Bool) : place? w.root follow (absolute w path) =
    .ok (match entries.lookup name with
      | none => .free (loc ++ [name])
      | some there => .found (loc ++ [name]) there) := by
  rw [hpath]
  cases hl : entries.lookup name with
  | none => exact h.free_child hn hl follow
  | some there =>
      refine h.found_child hl hw follow fun _ target heq => ?_
      subst heq
      exact absurd (ho _ hl) nofun

include hw h hn ho hpath in
theorem writeFile_extends (content : Bytes) :
    Moves (Extends (loc ++ [name])) (writeFile path content) w := by
  have hrefl : Extends (loc ++ [name]) w.root w.root := .refl hw (by simp)
  have hat := at?_folder_child h.at?_eq name
  have hwrite (hfile : ∀ node, entries.lookup name = some node → node.isFile = true) :
      Moves (Extends (loc ++ [name])) (writeAt (loc ++ [name]) content) w :=
    writeAt_extends hw (by simp) (isName_of_mem_child hw h hn)
      (fun node hnode => hfile node (hat.symm.trans hnode)) content
  refine .lookup_bind hrefl fun place hplace => ?_
  cases hplace.symm.trans (place?_linkless hw h hn ho hpath true)
  cases hl : entries.lookup name with
  | none => exact hwrite fun node hnode => nomatch hl.symm.trans hnode
  | some there =>
      cases there with
      | folder below => exact .failSystem hrefl _
      | link target => exact absurd (ho _ hl) nofun
      | file content' modified =>
          refine hwrite fun node hnode => ?_
          cases hl.symm.trans hnode
          rfl

include hw h hn ho hpath in
theorem makeLink_extends (goal : String) :
    Moves (Extends (loc ++ [name])) (makeLink goal path) w := by
  have hrefl : Extends (loc ++ [name]) w.root w.root := .refl hw (by simp)
  have hat := at?_folder_child h.at?_eq name
  rw [makeLink]
  split
  · exact .failSystem hrefl _
  · refine .lookup_bind hrefl fun place hplace => ?_
    cases hplace.symm.trans (place?_linkless hw h hn ho hpath false)
    cases hl : entries.lookup name with
    | none =>
        exact putStep_extends hw (by simp) (isName_of_mem_child hw h hn) (.link goal) (hat.trans hl)
    | some there => exact .failSystem hrefl _

end

theorem mergeEntries_extends {all : List (String × Node)}
    (ih : ∀ e ∈ all, ∀ w source target name loc entries, w.root.WellFormed → e.2.WellFormed →
      target ≠ "" → Leads w.root (absolute w target) loc entries → IsName name →
      Linkless entries name →
      Moves (Extends (loc ++ [name])) (mergeNode source (target ++ "/" ++ name) e.2) w)
    (hw : w.root.WellFormed) (hall : WellFormed (.folder all)) (ht : target ≠ "") (hl : loc ≠ [])
    (h : Leads w.root (absolute w target) loc entries) (ho : ∀ e ∈ all, Linkless entries e.1)
    (source : String) : Moves (Extends loc) (mergeEntries source target all) w := by
  induction all generalizing w entries with
  | nil => exact .pure (.refl hw hl) ()
  | cons e rest ihRest =>
      obtain ⟨name, node⟩ := e
      have hnames : IsName name ∧ node.WellFormed := by
        cases hall with
        | folder _ _ hn hnodes => exact ⟨hn _ List.mem_cons_self, hnodes _ List.mem_cons_self⟩
      have hrest : WellFormed (.folder rest) := by
        cases hall with
        | folder _ hs hn hnodes =>
            exact .folder rest hs.tail (fun e he => hn e (List.mem_cons_of_mem _ he))
              fun e he => hnodes e (List.mem_cons_of_mem _ he)
      have hfirst := ih _ List.mem_cons_self w (source ++ "/" ++ name) target name loc entries hw
        hnames.2 ht h hnames.1 (ho _ List.mem_cons_self)
      refine .bind (hfirst.mono fun _ _ he => he.weaken hl) fun _ w' hx => ?_
      have hlater := (mergeNode_orderly node (source ++ "/" ++ name) (target ++ "/" ++ name)).later w
      rw [hx] at hlater
      rw [Moves, hx] at hfirst
      obtain ⟨entries', h', hsame⟩ := hfirst.leads h
      rw [← hlater.absolute_eq target] at h'
      refine ihRest (fun e he => ih e (List.mem_cons_of_mem _ he)) hfirst.after hrest h'
        fun e he there hthere => ?_
      rw [hsame e.1 fun heq => String.lt_irrefl _ (heq ▸ hall.sorted.head_lt e he)] at hthere
      exact ho e (List.mem_cons_of_mem _ he) there hthere

/-- Copying to a name without links changes nothing but the entry of that name. -/
theorem mergeNode_extends (node : Node) : ∀ w source target name loc entries,
    w.root.WellFormed → node.WellFormed → target ≠ "" → Leads w.root (absolute w target) loc entries →
    IsName name → Linkless entries name →
    Moves (Extends (loc ++ [name])) (mergeNode source (target ++ "/" ++ name) node) w := by
  induction node using Node.induct with
  | file content modified =>
      intro w source target name loc entries hw _ ht h hn ho
      have hpath := absolute_behind (w := w) ht name
      refine .lookup_bind (.refl hw (by simp)) fun place hplace => ?_
      split
      · exact .failSystem (.refl hw (by simp)) _
      · exact writeFile_extends hw h hn ho hpath content
  | folder all ih =>
      intro w source target name loc entries hw hall ht h hn ho
      have hpath := absolute_behind (w := w) ht name
      have hrefl : Extends (loc ++ [name]) w.root w.root := .refl hw (by simp)
      have hat := at?_folder_child h.at?_eq name
      refine .lookup_bind hrefl fun place hplace => ?_
      cases hplace.symm.trans (place?_linkless hw h hn ho hpath true)
      cases hl : entries.lookup name with
      | some there =>
          cases there with
          | file content modified => exact .failSystem hrefl _
          | link target => cases ho _ hl
          | folder below =>
              have hbelow := h.folder_child hw hl
              rw [← hpath] at hbelow
              refine mergeEntries_extends ih hw hall (append_slash_ne_empty _ _) (by simp) hbelow
                (fun e _ node hnode => ?_) source
              exact (ho _ hl).of_mem _ (mem_of_lookup hnode)
      | none =>
          refine .lookup_bind hrefl fun place hplace => ?_
          cases hplace.symm.trans (place?_linkless hw h hn ho hpath false)
          simp only [hl]
          have hput := putStep_extends hw (by simp) (isName_of_mem_child hw h hn) wellFormed_empty
            (hat.trans hl)
          refine .bind hput fun _ w' hx => ?_
          have hlater := (putStep_orderly (loc ++ [name]) .empty).later w
          rw [hx] at hlater
          rw [Moves, hx] at hput
          have hbelow := hput.leads_empty h (root_of_step hx)
          rw [← hpath, ← hlater.absolute_eq] at hbelow
          exact mergeEntries_extends ih hput.after hall (append_slash_ne_empty _ _) (by simp) hbelow
            (fun e _ node hnode => by cases hnode) source
  | link aim =>
      intro w source target name loc entries hw _ ht h hn ho
      have hpath := absolute_behind (w := w) ht name
      have hrefl : Extends (loc ++ [name]) w.root w.root := .refl hw (by simp)
      rw [mergeNode]
      refine .get_bind (.lookup_bind hrefl fun place hplace => ?_)
      cases hplace.symm.trans (place?_linkless hw h hn ho hpath false)
      cases hl : entries.lookup name with
      | none => exact makeLink_extends hw h hn ho hpath _
      | some there =>
          cases there with
          | file content modified => exact .failSystem hrefl _
          | link target => cases ho _ hl
          | folder below => exact .failSystem hrefl _

theorem ne_empty_of_child {path : String} (hpath : absolute w path = dir ++ "/" ++ name) :
    path ≠ "" := by
  rintro rfl
  exact append_slash_ne_empty dir name hpath.symm

theorem require_eq_ok {follow : Bool} {path : String} {w' : World}
    (hx : require follow path w = (.ok (loc, node), w')) :
    place? w.root follow (absolute w path) = .ok (.found loc node) ∧ w' = w := by
  cases hp : place? w.root follow (absolute w path) with
  | error error => cases hx.symm.trans (require_error hp)
  | ok place =>
      cases place with
      | free loc' => cases hx.symm.trans (require_free hp)
      | found loc' node' =>
          cases hx.symm.trans (require_found hp)
          exact ⟨rfl, rfl⟩

theorem refuse_eq_ok {condition : Bool} {error : SystemError} {w' : World}
    (hx : refuse condition error w = (.ok (), w')) : condition = false := by
  cases condition with
  | false => rfl
  | true => cases hx

/-- What a copy that is not refused finds: the kinds agree. -/
theorem checkCopy_ok {recursive : Bool} {source target : String} {w' : World}
    (hx : checkCopy recursive source target w = (.ok (), w')) :
    ∃ origin node, place? w.root true (absolute w source) = .ok (.found origin node) ∧
      ∀ loc there, place? w.root false (absolute w target) = .ok (.found loc there) →
        there.isFolder = node.isFolder := by
  obtain ⟨⟨origin, node⟩, w₁, hrequire, hrest⟩ := bind_eq_ok hx
  obtain ⟨hplace, rfl⟩ := require_eq_ok hrequire
  obtain ⟨⟨⟩, w₂, hcheck, -⟩ := bind_eq_ok hrest
  refine ⟨origin, node, hplace, fun loc there hthere => ?_⟩
  rw [checkTarget, bind_ok (attempt_ok (lookup_ok hthere))] at hcheck
  obtain ⟨_, w₃, -, hcheck⟩ := bind_eq_ok hcheck
  obtain ⟨_, w₄, -, hcheck⟩ := bind_eq_ok hcheck
  obtain ⟨_, w₅, honto, hcheck⟩ := bind_eq_ok hcheck
  have hfile := refuse_eq_ok honto
  have hfolder := refuse_eq_ok hcheck
  cases hn : node.isFolder <;> cases ht : there.isFolder <;> simp_all

section

variable {path : String} (hw : w.root.WellFormed) (h : Leads w.root dir loc entries)
  (hn : IsName name) (ho : Linkless entries name) (hpath : absolute w path = dir ++ "/" ++ name)

include hw h hn ho hpath in
/-- Making the folder of a name makes that alone. -/
theorem makeFolders_linkless : makeFolders path w = (match entries.lookup name with
    | none => putStep (loc ++ [name]) .empty
    | some (.folder _) => pure ()
    | some _ => failSystem .alreadyExists) w := by
  have hplain := h.plain_names
  have hstep := isStep_of_isName hn
  have hunder : Leads w.root (Path.under "" (Path.names dir)) loc entries := by
    refine h.congr ?_ fun hc => ?_
    · rw [Path.names_under fun n hm => ⟨(hplain n hm).1, (hplain n hm).2.1⟩]
      rfl
    · rcases Path.mem_under hc with hc | hc | ⟨n, hm, hc⟩
      · cases hc
      · cases hc
      · exact (hplain n hm).2.2 hc
  have hrooted := isRooted_under (Path.names dir)
  have habs := hrooted.absolute_eq (w := w) name
  have hbegin : makeFolders path w =
      makeFoldersFrom (Path.under "" (Path.names dir)) [name] w := by
    have hnul : '\x00' ∉ path.toList := not_mem_of_absolute (w := w) (by
      rw [hpath]
      exact h.not_mem_child hn)
    rw [makeFolders_eq (ne_empty_of_child hpath) hnul, hpath, Path.names_child dir hstep]
    exact makeFoldersFrom_append (.inl rfl) (by decide) hplain h.1
  rw [hbegin]
  have hplace := place?_linkless hw hunder hn ho habs
  cases hl : entries.lookup name with
  | none =>
      rw [hl, habs] at hplace
      rw [makeFoldersFrom_free hrooted hplace]
      simp only [makeFoldersFrom, bind_pure_unit]
  | some there =>
      rw [hl] at hplace
      rw [makeFoldersFrom, bind_ok (lookup_ok (hplace true))]
      cases there with
      | folder below => rfl
      | file content modified => rfl
      | link target => rfl

include hw h hn ho hpath in
theorem copyLink_extends (source aim : String) :
    Moves (Extends (loc ++ [name])) (copyLink source path aim) w := by
  have hrefl : Extends (loc ++ [name]) w.root w.root := .refl hw (by simp)
  rw [copyLink]
  refine .get_bind (.lookup_bind hrefl fun place hplace => ?_)
  cases hplace.symm.trans (place?_linkless hw h hn ho hpath false)
  cases hl : entries.lookup name with
  | none => exact makeLink_extends hw h hn ho hpath _
  | some there =>
      cases there with
      | file content modified => exact .failSystem hrefl _
      | link target => cases ho _ hl
      | folder below => exact .failSystem hrefl _

include hw h hn ho hpath in
theorem makeFolders_extends : Moves (Extends (loc ++ [name])) (makeFolders path) w := by
  have hrefl : Extends (loc ++ [name]) w.root w.root := .refl hw (by simp)
  have hat := at?_folder_child h.at?_eq name
  rw [Moves, makeFolders_linkless hw h hn ho hpath]
  cases hl : entries.lookup name with
  | none =>
      exact putStep_extends hw (by simp) (isName_of_mem_child hw h hn) wellFormed_empty
        (hat.trans hl)
  | some there => cases there <;> exact hrefl

include hw h hn ho hpath in
/-- Afterwards the name leads to a folder, in which there are no links either. -/
theorem leads_of_makeFolders {w' : World} (hx : makeFolders path w = (.ok (), w')) :
    ∃ below, Leads w'.root (absolute w' path) (loc ++ [name]) below ∧ ∀ key, Linkless below key := by
  have hmoves := makeFolders_extends hw h hn ho hpath
  have hlater := (makeFolders_orderly path).later w
  rw [hx] at hlater
  rw [Moves, hx] at hmoves
  rw [hlater.absolute_eq, hpath]
  rw [makeFolders_linkless hw h hn ho hpath] at hx
  cases hl : entries.lookup name with
  | none =>
      rw [hl] at hx
      exact ⟨[], hmoves.leads_empty h (root_of_step hx), fun key there hthere => by cases hthere⟩
  | some there =>
      rw [hl] at hx
      cases there with
      | file content modified => cases hx
      | link target => cases hx
      | folder below =>
          cases hx
          exact ⟨below, h.folder_child hw hl, fun key there hthere =>
            (ho _ hl).of_mem _ (mem_of_lookup hthere)⟩

include hw h hn ho hpath in
/-- A node is copied to a name without links, if it is not a file that goes over a folder. -/
theorem copyNode_extends (source : String) {node : Node} (hnode : node.WellFormed)
    (hk : node.isFile = true → ∀ there, entries.lookup name = some there → there.isFile = true) :
    Moves (Extends (loc ++ [name])) (copyNode source path node) w := by
  have hrefl : Extends (loc ++ [name]) w.root w.root := .refl hw (by simp)
  have hat := at?_folder_child h.at?_eq name
  cases node with
  | link aim => exact copyLink_extends hw h hn ho hpath source aim
  | folder all =>
      have hmake := makeFolders_extends hw h hn ho hpath
      refine .bind hmake fun _ w' hx => ?_
      rw [Moves, hx] at hmake
      obtain ⟨below, hbelow, hfree⟩ := leads_of_makeFolders hw h hn ho hpath hx
      exact mergeEntries_extends (fun e _ => mergeNode_extends e.2) hmake.after hnode
        (ne_empty_of_child hpath) (by simp) hbelow (fun e _ => hfree e.1) source
  | file content modified =>
      refine .lookup_bind hrefl fun place hplace => ?_
      cases hplace.symm.trans (place?_linkless hw h hn ho hpath false)
      cases hl : entries.lookup name with
      | none => exact writeFile_extends hw h hn ho hpath content
      | some there =>
          cases there with
          | folder below => cases hk rfl _ hl
          | link target => cases ho _ hl
          | file content' modified' =>
              have hremove := removeStep_extends hw (by simp) (hat.trans hl)
              refine .bind hremove fun _ w' hx => ?_
              have hlater := (removeStep_orderly (loc ++ [name])).later w
              rw [hx] at hlater
              rw [Moves, hx] at hremove
              obtain ⟨entries', h', -⟩ := hremove.leads h
              have hnone : entries'.lookup name = none := by
                rw [← at?_folder_child h'.at?_eq, root_of_step hx]
                exact at?_remove_self hw (by simp)
              refine writeFile_extends hremove.after h' hn (fun there hthere => ?_)
                ((hlater.absolute_eq path).trans hpath) content
              cases hnone.symm.trans hthere

include hw h hn ho hpath in
/-- Copying to a name without links changes nothing but the entry of that name. -/
theorem copy_extends (hne : Path.directory path ≠ "")
    (hdir : Leads w.root (absolute w (Path.directory path)) loc entries) (recursive : Bool)
    (source : String) : Moves (Extends (loc ++ [name])) (copy recursive source path) w := by
  rw [copy]
  rcases checkCopy_observes recursive source path w with
    ⟨⟨⟩, w₁, hx, he⟩ | ⟨failure, w₁, hx, he⟩
  · obtain ⟨origin, followed, hfollowed, hkinds⟩ := checkCopy_ok hx
    rw [← he.root_eq] at hw h hdir hfollowed hkinds
    rw [← he.absolute_eq] at hpath hdir hfollowed hkinds
    have hrefl : Extends (loc ++ [name]) w₁.root w₁.root := .refl hw (by simp)
    have hcopy : Moves (Extends (loc ++ [name])) (do
        let found ← require false source
        copyNode source path found.2) w₁ := by
      rw [require, bind_assoc]
      refine .lookup_bind hrefl fun place hplace => ?_
      cases place with
      | free origin' => exact .failSystem hrefl _
      | found origin' node =>
          refine copyNode_extends hw h hn ho hpath source (hw.at? (place?_found hplace))
            fun hfile there hthere => ?_
          -- A file is what it is whether links are followed or not.
          have hsame := place?_carry_found (.refl w₁.root) (by simp : false = true → true = true)
            hplace (place?_found hplace) fun _ target heq => by rw [heq] at hfile; cases hfile
          cases hfollowed.symm.trans hsame
          have hkind := hkinds (loc ++ [name]) there
            ((place?_linkless hw h hn ho hpath false).trans (by rw [hthere]))
          cases there with
          | file content modified => rfl
          | link target => cases ho _ hthere
          | folder below =>
              cases followed with
              | file content modified => cases hkind
              | folder all => cases hfile
              | link target => cases hfile
    obtain ⟨there, hthere⟩ := exists?_same (Path.directory path) w₁
    have hmake := attempt_ok (makeFolders_of_leads hne hdir)
    rw [Moves, bind_ok hx, bind_ok hthere, ← he.root_eq]
    cases there with
    | true => exact hcopy
    | false =>
        simp only [Bool.not_false, if_true]
        rw [bind_ok hmake]
        exact hcopy
  · rw [Moves, bind_error hx, he.root_eq]
    exact .refl hw (by simp)

end

end Files

end ScriptPack
