import ScriptPack.Proofs.FileSystem.Overlay
import ScriptPack.Proofs.FileSystem.Straight

/-!
Folders that exist or can be made. The names of such a path lead to a folder, and the rest of them are
missing from there on; once the folder is made, they lead to it.
-/

namespace ScriptPack

open Node Lookup Effect

namespace Lookup

variable {root root' : Node} {here ahead rest all kept tail : List String} {name path other : String}
  {loc loc' : Location} {entries entries' : List (String × Node)}
  {jump : List String → List String → Except SystemError Place}

/-- Steps down the names of folders lead to the last one; dots do not count. -/
theorem walkWith_down (hd : ∀ n ∈ ahead, n = "." ∨ IsDown n)
    (hat : root.at? (here.reverse ++ ahead.filter (· != ".")) = some (.folder entries)) :
    walkWith jump root true here ahead =
      .ok (.found (here.reverse ++ ahead.filter (· != ".")) (.folder entries)) := by
  induction ahead generalizing here with
  | nil =>
      rw [List.filter_nil, List.append_nil] at hat ⊢
      rw [walkWith, hat]
  | cons name rest ih =>
      have hrest := fun n hn => hd n (List.mem_cons_of_mem _ hn)
      rcases hd name List.mem_cons_self with rfl | hname
      · rw [walkWith_dot]
        exact ih hrest hat
      · have hloc : here.reverse ++ (name :: rest).filter (· != ".") =
            (name :: here).reverse ++ rest.filter (· != ".") := by
          rw [List.filter_cons_of_pos (by simpa using hname.1)]
          simp
        rw [hloc] at hat ⊢
        obtain ⟨above, habove⟩ : IsFolderAt root (name :: here).reverse := by
          cases hbelow : rest.filter (· != ".") with
          | nil => exact ⟨entries, by rw [← hat, hbelow, List.append_nil]⟩
          | cons next below =>
              rw [hbelow] at hat
              exact exists_folder_of_at?_append hat
        rw [walkWith_folder hname habove]
        exact ih hrest hat

/-- Without links, a step down and back up can be left out of a walk. -/
theorem walkWith_back {before : List String} {place : Place} (hn : IsDown name)
    (h : walkWith (fun _ _ => .error .tooManyLinks) root true here (before ++ name :: ".." :: rest) =
      .ok place) :
    walkWith (fun _ _ => .error .tooManyLinks) root true here (before ++ rest) = .ok place := by
  induction before generalizing here with
  | nil =>
      rw [List.nil_append] at h ⊢
      cases hat : root.at? (name :: here).reverse with
      | none =>
          rw [walkWith_none hn hat] at h
          cases h
      | some node =>
          cases node with
          | folder entries =>
              rw [walkWith_folder hn hat, walkWith_dots] at h
              exact h
          | file content modified =>
              rw [walkWith_file hn hat] at h
              cases h
          | link target =>
              rw [walkWith_link hn hat] at h
              cases h
  | cons first before ih =>
      rw [List.cons_append] at h ⊢
      by_cases hdot : first = "."
      · subst hdot
        rw [walkWith_dot] at h ⊢
        exact ih h
      · by_cases hup : first = ".."
        · subst hup
          rw [walkWith_dots] at h ⊢
          exact ih h
        · have hd : IsDown first := ⟨hdot, hup⟩
          cases hat : root.at? (first :: here).reverse with
          | none =>
              rw [walkWith_none hd hat, if_neg (by simp)] at h
              cases h
          | some node =>
              cases node with
              | folder entries =>
                  rw [walkWith_folder hd hat] at h ⊢
                  exact ih h
              | file content modified =>
                  rw [walkWith_file hd hat, if_neg (by simp)] at h
                  cases h
              | link target =>
                  rw [walkWith_link hd hat, if_neg (by simp)] at h
                  cases h

/-- A path to a folder leads to it, also if it is written with a separator at its end. -/
theorem Leads.place?_folder (h : Leads root path loc entries) (hne : path ≠ "") :
    place? root true path = .ok (.found loc (.folder entries)) := by
  cases hs : Path.endsWithSeparator path with
  | false => exact h.place?_eq hne hs
  | true =>
      refine place?_of_walk hne h.2 ?_
      have hdot := h.dot.1
      rw [Path.names_append_slash] at hdot
      rw [steps, hs, if_pos rfl]
      exact hdot

/-- From a folder without links, steps lead only to places inside it. -/
theorem Leads.location_behind (h : Leads root path loc entries)
    (hfree : LinkFree (.folder entries)) (h' : Leads root other loc' entries')
    (hnames : Path.names other = Path.names path ++ tail) (htail : ∀ n ∈ tail, Path.IsStep n) :
    loc <+: loc' := by
  have hwalk' := h'.1
  rw [hnames] at hwalk'
  by_cases hnil : tail = []
  · rw [hnil, List.append_nil, h.1] at hwalk'
    cases hwalk'
    exact List.prefix_refl loc
  · obtain ⟨links, hwalk⟩ := walk_append h.1
    rw [hwalk true tail hnil] at hwalk'
    have hunlinked : Unlinked root loc.reverse tail := by
      intro next _ _ target hat
      rw [List.reverse_reverse, at?_append_of_eq h.at?_eq] at hat
      cases hfree.at? hat
    have hdown : ∀ n ∈ tail, IsDown n := fun n hn => ⟨(htail n hn).2.1, (htail n hn).2.2.1⟩
    have hloc (jump) (hx : walkWith jump root true loc.reverse tail =
        .ok (.found loc' (.folder entries'))) : loc' = loc ++ tail := by
      have heq := location_of_walkWith hdown hunlinked hx
      rwa [List.reverse_reverse] at heq
    rw [show loc' = loc ++ tail by cases links <;> exact hloc _ hwalk']
    exact List.prefix_append loc tail

end Lookup

/-- Names aim at a location: they lead to a folder there, or to a folder from which on the rest of them
are missing, without steps up. At most the given number of links is followed. -/
inductive Node.Aims (root : Node) (links : Nat) : List String → Location → Prop
  | there {all : List String} {loc : Location} {entries : List (String × Node)}
      (h : walk root true links [] all = .ok (.found loc (.folder entries))) : Aims root links all loc
  | behind {front rest : List String} {name : String} {loc : Location}
      {entries : List (String × Node)}
      (h : walk root true links [] front = .ok (.found loc (.folder entries)))
      (hname : IsName name) (hnone : entries.lookup name = none)
      (hrest : ∀ n ∈ rest, n = "." ∨ IsName n) :
      Aims root links (front ++ name :: rest) (loc ++ name :: rest.filter (· != "."))

namespace Node.Aims

variable {root root' : Node} {links : Nat} {all kept before done rest : List String} {name : String}
  {loc : Location} {entries : List (String × Node)} {rooted : Bool}

/-- When the folder is there, the names lead to it. -/
theorem arrives (h : Aims root links all loc) (hk : Keeps root root')
    (hat : root'.at? loc = some (.folder entries)) :
    walk root' true links [] all = .ok (.found loc (.folder entries)) := by
  cases h with
  | there h => exact (walk_carry hk id h).2 _ hat nofun
  | @behind front rest name loc _ h hname hnone hrest =>
      obtain ⟨entries₁, hat₁⟩ := hk.folder _ _ (walk_fits h)
      obtain ⟨links', hwalk⟩ := walk_append ((walk_carry hk id h).2 _ hat₁ nofun)
      have hdown : ∀ n ∈ name :: rest, n = "." ∨ IsDown n := by
        intro n hn
        rcases List.mem_cons.mp hn with rfl | hn
        · exact .inr ⟨hname.2.1, hname.2.2.1⟩
        · exact (hrest n hn).imp_right fun hn => ⟨hn.2.1, hn.2.2.1⟩
      have hfilter : loc ++ name :: rest.filter (· != ".") =
          loc.reverse.reverse ++ (name :: rest).filter (· != ".") := by
        rw [List.reverse_reverse, List.filter_cons_of_pos (by simpa using hname.2.1)]
      rw [hfilter] at hat ⊢
      rw [hwalk true _ (List.cons_ne_nil name rest)]
      cases links' <;> exact walkWith_down hdown hat

theorem keep (h : Aims root links all loc) (hk : Keeps root root')
    (hat : root'.at? loc = some (.folder entries)) : Aims root' links all loc :=
  .there (h.arrives hk hat)

/-- Dots do not matter. -/
theorem undots (h : Aims root links all loc) (hu : Path.Undots all kept) :
    Aims root links kept loc := by
  cases h with
  | there h => exact .there (walk_undots hu h)
  | @behind front rest name loc entries h hname hnone hrest =>
      obtain ⟨front', behind, rfl, hfront, hbehind⟩ := hu.split
      cases hbehind with
      | drop _ => exact absurd rfl hname.2.1
      | keep _ hbehind =>
          rw [← hbehind.filter_eq]
          exact .behind (walk_undots hfront h) hname hnone fun n hn => hrest n (hbehind.subset hn)

/-! ### Steps up where there are no links -/

/-- Where no link has to be followed, more of them may be. -/
theorem more (h : Aims root 0 all loc) (links : Nat) : Aims root links all loc := by
  have hwalk {ahead : List String} {loc : Location} {entries : List (String × Node)}
      (h : walk root true 0 [] ahead = .ok (.found loc (.folder entries))) :
      walk root true links [] ahead = .ok (.found loc (.folder entries)) := by
    cases links <;> exact walkWith_undots (fun _ _ _ _ hj => by cases hj) (.refl ahead) h
  cases h with
  | there h => exact .there (hwalk h)
  | behind h hname hnone hrest => exact .behind (hwalk h) hname hnone hrest

/-- A step down and back up can be left out. -/
theorem back (h : Aims root 0 (before ++ name :: ".." :: rest) loc) (hn : IsDown name) :
    Aims root 0 (before ++ rest) loc := by
  generalize hwhole : before ++ name :: ".." :: rest = whole at h
  cases h with
  | there h =>
      subst hwhole
      exact .there (walkWith_back hn h)
  | @behind front behind first loc entries h hfirst hnone hrest =>
      have hup : ".." ∉ first :: behind := by
        intro hmem
        rcases List.mem_cons.mp hmem with heq | hmem
        · exact hfirst.2.2.1 heq.symm
        · rcases hrest _ hmem with heq | hname
          · exact absurd heq (by decide)
          · exact hname.2.2.1 rfl
      rcases List.append_eq_append_iff.mp hwhole with ⟨between, rfl, heq⟩ | ⟨between, rfl, heq⟩
      · cases between with
        | nil =>
            have hbehind : name :: ".." :: rest = first :: behind := heq
            exact absurd (hbehind ▸ List.mem_cons_of_mem _ List.mem_cons_self) hup
        | cons next between =>
            have hnext : name = next ∧ ".." :: rest = between ++ first :: behind :=
              List.cons.inj heq
            cases between with
            | nil => exact absurd (List.cons.inj hnext.2).1.symm hfirst.2.2.1
            | cons next' between =>
                obtain ⟨rfl, hrest'⟩ := hnext
                have hlast : ".." = next' ∧ rest = between ++ first :: behind :=
                  List.cons.inj hrest'
                obtain ⟨rfl, rfl⟩ := hlast
                rw [← List.append_assoc]
                exact .behind (walkWith_back hn h) hfirst hnone hrest
      · exact absurd (by rw [heq]; simp) hup

/-- Above the root is the root. -/
theorem top (h : Aims root 0 (".." :: rest) loc) : Aims root 0 rest loc := by
  generalize hwhole : ".." :: rest = whole at h
  cases h with
  | there h =>
      subst hwhole
      rw [walk, walkWith_dots] at h
      exact .there h
  | @behind front behind first loc entries h hfirst hnone hrest =>
      cases front with
      | nil => exact absurd (List.cons.inj hwhole).1.symm hfirst.2.2.1
      | cons next front =>
          obtain ⟨rfl, rfl⟩ := List.cons.inj hwhole
          rw [walk, walkWith_dots] at h
          exact .behind h hfirst hnone hrest

/-- Behind names that are normal so far, the other ones can be normalised. -/
theorem foldl_normalStep (h : Aims root 0 (before ++ done.reverse ++ rest) loc)
    (hb : rooted = true → before = []) (hd : ∀ n ∈ done, n ≠ ".") :
    Aims root 0 (before ++ (rest.foldl (Path.normalStep rooted) done).reverse) loc := by
  induction rest generalizing done with
  | nil => rwa [List.append_nil] at h
  | cons name rest ih =>
      rw [List.foldl_cons]
      by_cases hdot : name = "."
      · subst hdot
        exact ih (h.undots ((Path.Undots.drop (.refl rest)).append_left _)) hd
      · by_cases hup : name = ".."
        · subst hup
          cases done with
          | nil =>
              cases rooted with
              | true =>
                  rw [hb rfl] at h ih ⊢
                  exact ih h.top (by simp [Path.normalStep])
              | false =>
                  refine ih ?_ (by simp [Path.normalStep])
                  simpa [Path.normalStep] using h
          | cons last earlier =>
              by_cases hlast : last = ".."
              · subst hlast
                refine ih ?_ ?_
                · simpa [Path.normalStep] using h
                · simpa [Path.normalStep] using hd
              · have hstep : Path.normalStep rooted (last :: earlier) ".." = earlier := by
                  simp [Path.normalStep, hlast]
                rw [hstep]
                refine ih ?_ fun n hn => hd n (List.mem_cons_of_mem _ hn)
                have hback : Aims root 0 (before ++ earlier.reverse ++ last :: ".." :: rest) loc := by
                  simpa using h
                exact hback.back ⟨hd last List.mem_cons_self, hlast⟩
        · have hstep : Path.normalStep rooted done name = name :: done := by
            simp [Path.normalStep, hdot, hup]
          rw [hstep]
          refine ih (by simpa using h) fun n hn => ?_
          rcases List.mem_cons.mp hn with rfl | hn
          · exact hdot
          · exact hd n hn

/-- Where there are no links, names can be normalised as text. -/
theorem normalNames (h : Aims root 0 (before ++ all) loc) (hb : rooted = true → before = []) :
    Aims root 0 (before ++ Path.normalNames rooted all) loc := by
  refine foldl_normalStep ?_ hb nofun
  rwa [List.reverse_nil, List.append_nil]

end Node.Aims

namespace Files

variable {w : World} {path : String} {loc : Location}

/-- The folder of a path that aims at a location is made there if it is missing. -/
theorem makeFolders_aims (hs : w.stepsLeft = none) (hw : w.root.WellFormed) (hne : path ≠ "")
    (hnul : '\x00' ∉ (absolute w path).toList)
    (h : Aims w.root linkLimit (Path.names (absolute w path)) loc) :
    ∃ root entries, Does (makeFolders path) w () root ∧ Confined loc w.root root ∧
      Keeps w.root root ∧ root.at? loc = some (.folder entries) ∧
      (w.root.at? loc = some (.folder entries) ∨ w.root.at? loc = none ∧ entries = []) := by
  generalize hall : Path.names (absolute w path) = all at h
  cases h with
  | @there all loc entries h =>
      have hleads : Leads w.root (absolute w path) loc entries := ⟨hall ▸ h, hnul⟩
      exact ⟨w.root, entries, does_of_eq (makeFolders_of_leads hne hleads), .refl hw loc,
        .refl w.root, hleads.at?_eq, .inl hleads.at?_eq⟩
  | @behind front rest name loc entries h hname hnone hrest =>
      have hplain : ∀ n ∈ front, n ≠ "" ∧ '/' ∉ n.toList ∧ '\x00' ∉ n.toList := by
        intro n hn
        have hmem : n ∈ Path.names (absolute w path) := by rw [hall]; simp [hn]
        obtain ⟨hne', hslash⟩ := Path.mem_names hmem
        exact ⟨hne', hslash, fun hc => hnul (Path.mem_of_mem_names hmem hc)⟩
      have hfront : Path.names (Path.under "" front) = front :=
        Path.names_under fun n hn => ⟨(hplain n hn).1, (hplain n hn).2.1⟩
      have hleads : Leads w.root (Path.under "" front) loc entries := by
        refine ⟨hfront.symm ▸ h, fun hc => ?_⟩
        rcases Path.mem_under hc with hc | hc | ⟨n, hn, hc⟩
        · cases hc
        · cases hc
        · exact (hplain n hn).2.2 hc
      have hbegin : makeFolders path w =
          makeFoldersFrom (Path.under "" front) (name :: rest) w := by
        rw [makeFolders_eq hne (not_mem_of_absolute hnul), hall]
        exact makeFoldersFrom_append (.inl rfl) (by decide) hplain h
      have hrooted := isRooted_under front
      obtain ⟨root', loc', ⟨w', hx, he⟩, hmakes, -⟩ :=
        makeFoldersFrom_missing hs hw hrooted hleads hname hnone hrest
      have hall : ∀ n ∈ name :: rest, n = "." ∨ IsName n := fun n hn =>
        (List.mem_cons.mp hn).elim (fun heq => .inr (heq ▸ hname)) (hrest n)
      have hreaches := makeFoldersFrom_reaches hw hrooted hleads hall
      -- The folder is where the names behind the last folder say.
      have hloc : canonicalFrom w.root linkLimit [] (Path.names (Path.under "" front) ++
          name :: rest) = loc ++ name :: rest.filter (· != ".") := by
        obtain ⟨links, hcanon⟩ := canonicalFrom_append (name :: rest) hleads.1
        rw [hcanon, canonicalFrom_free_dots (isStep_of_isName hname)
          (fun n hn => (hrest n hn).imp_right isStep_of_isName)
          (fun n hn => isStep_of_isName (hw.isName_of_mem hleads.at?_eq hn))
          ((at?_folder_child hleads.at?_eq name).trans hnone), List.append_assoc]
        rfl
      rw [hloc] at hreaches
      obtain ⟨entries', hleads', -⟩ := hreaches.leads w' hx
      rw [he.root_eq] at hleads'
      obtain ⟨rfl, rfl⟩ := hleads'.unique hmakes.leads
      have hconfined := hreaches.confined
      rw [Moves, hx, he.root_eq] at hconfined
      exact ⟨root', [], ⟨w', hbegin.trans hx, he⟩, hconfined, hmakes.keeps, hleads'.at?_eq,
        .inr ⟨hmakes.fresh, rfl⟩⟩

end Files

end ScriptPack
