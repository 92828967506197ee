import ScriptPack.Proofs.Discovery.Resolving
import ScriptPack.Proofs.Text.Utf16

/-!
Which files a scan reads: the script and, unless no step is to be made, the other Python files in its
folder. As these are all in one folder, there is room for all of them.
-/

namespace ScriptPack

open Effect

namespace Discovery

/-- The Python files in a folder, in order; none if it cannot be listed. -/
def filesIn (w : World) (folder : String) : List String :=
  match (Files.list folder w).1 with
  | .ok entries => Scan.pythonFiles folder entries
  | .error _ => []

/-- The files that are read for a script: the script, and its neighbours unless no step is to be
made. The neighbours of a neighbour are the same ones. -/
def reached (maxDepth : Number) (w : World) (entry : String) : List String :=
  if Number.atMost maxDepth (.ofNat 0) then [entry]
  else entry :: (filesIn w (Path.directory entry)).filter (!List.contains [entry] ·)

/-- The top-level names of what a file imports; none if the file cannot be read. -/
def topsOf (w : World) (file : String) : List String :=
  match (Files.imports file w).1 with
  | .ok found => found.imports.map fun item => Python.topLevelName item.module
  | .error _ => []

namespace Scan

variable {w w' : World} {scan : Scan} {folder : String} {files : List String}

theorem topsOf_steady (he : w.Evolves w.root w') : topsOf w' = topsOf w := by
  funext file
  rw [topsOf, topsOf, Files.imports_steady file w w' he]

theorem filesIn_steady (he : w.Evolves w.root w') : filesIn w' = filesIn w := by
  funext folder
  rw [filesIn, filesIn, Files.list_steady folder w w' he]

theorem readFile_does (scan : Scan) (file : String) (w : World) :
    Does (scan.readFile file) w { scan with names := scan.names ++ topsOf w file } w.root := by
  rw [readFile, topsOf]
  rcases Files.imports_observes file w with ⟨found, w₁, hx, he⟩ | ⟨failure, w₁, hx, he⟩
  · refine Does.bind ⟨w₁, attempt_ok hx, he⟩ fun w₂ he₂ => ?_
    rw [hx, ← he₂.root_eq]
    exact (trace_does _ _ _ w₂).bind fun w₃ he₃ => by
      rw [← he₃.root_eq]
      exact does_pure _ w₃
  · refine Does.bind ⟨w₁, attempt_failed hx, he⟩ fun w₂ he₂ => ?_
    rw [hx, ← he₂.root_eq, List.append_nil]
    exact (warnFailed_does _ _ _ w₂).bind fun w₃ he₃ => by
      rw [← he₃.root_eq]
      exact does_pure _ w₃

/-- The neighbours of a file whose folder was not listed before. -/
theorem siblings_does {file : String} (hl : scan.listings.lookup (Path.directory file) = none)
    (w : World) :
    Does (scan.siblings file) w (filesIn w (Path.directory file),
      { scan with listings :=
          (Path.directory file, filesIn w (Path.directory file)) :: scan.listings }) w.root := by
  rw [siblings, filesIn]
  simp only [hl]
  rcases Files.list_observes (Path.directory file) w with
    ⟨entries, w₁, hx, he⟩ | ⟨failure, w₁, hx, he⟩
  · rw [hx]
    exact ⟨w₁, (bind_ok (attempt_ok hx)).trans rfl, he⟩
  · refine Does.bind ⟨w₁, attempt_failed hx, he⟩ fun w₂ he₂ => ?_
    rw [hx, ← he₂.root_eq]
    exact (warnFailed_does _ _ _ w₂).bind fun w₃ he₃ => by
      rw [← he₃.root_eq]
      exact does_pure _ w₃

/-- Once a folder is listed and all its files are on their way, the waiting files from it are read
and no others come. -/
theorem walk_waiting (maxDepth : Number) (hl : scan.listings.lookup folder = some files)
    (hv : ∀ file ∈ files, file ∈ scan.visited) {waiting : List (String × Nat)}
    (hw : ∀ item ∈ waiting, Path.directory item.1 = folder) {room : Nat}
    (hroom : waiting.length ≤ room) (w : World) :
    Does (walk maxDepth room waiting scan) w
      { scan with names := scan.names ++ (waiting.map Prod.fst).flatMap (topsOf w) } w.root := by
  induction waiting generalizing scan room w with
  | nil =>
      rw [List.map_nil, List.flatMap_nil, List.append_nil]
      cases room <;> exact does_pure scan w
  | cons item waiting ih =>
      obtain ⟨file, depth⟩ := item
      obtain ⟨room, rfl⟩ : ∃ room', room = room' + 1 := ⟨room - 1, by
        rw [List.length_cons] at hroom
        omega⟩
      have hread := readFile_does scan file w
      rw [walk]
      refine hread.bind fun w₁ he => ?_
      have hrest := @ih { scan with names := scan.names ++ topsOf w file } hl hv
        (fun item hi => hw item (List.mem_cons_of_mem _ hi)) room
        (Nat.le_of_succ_le_succ hroom) w₁
      rw [topsOf_steady he, he.root_eq] at hrest
      rw [List.map_cons, List.flatMap_cons, ← List.append_assoc]
      split
      · exact hrest
      · have hfolder : Path.directory file = folder := hw (file, depth) List.mem_cons_self
        have hknown : (files.filter (!scan.visited.contains ·)) = [] := by
          refine List.filter_eq_nil_iff.mpr fun file hf => ?_
          simpa using hv file hf
        rw [siblings]
        simp only [hfolder, hl, pure_bind, hknown, List.map_nil, List.append_nil]
        exact hrest

/-- A name that is joined to the folder of a path gives a path in that folder. -/
theorem directory_join {path name : String} (hp : Path.IsNormal path) (hn : Node.IsName name) :
    Path.directory (Path.join [Path.directory path, name]) = Path.directory path := by
  have hstep := Lookup.isStep_of_isName hn
  have hroot {last : String} (h : Path.IsStep last) : Path.directory (Path.ofNames [last]) = "/" := by
    have hnormal : Path.IsNormal (Path.ofNames [last]) := ⟨[last], by simp, by simpa using h, rfl⟩
    rw [Path.directory, Path.names_ofNames (by simpa using h), hnormal.isAbsolute]
    rfl
  obtain ⟨all, hne, hsteps, rfl⟩ := hp
  obtain ⟨above, last, rfl⟩ := (List.eq_nil_or_concat all).resolve_left hne
  rw [List.concat_eq_append] at hsteps ⊢
  have habove : ∀ name ∈ above, Path.IsStep name := fun name h =>
    hsteps name (List.mem_append_left _ h)
  have hlast : Path.IsStep last := hsteps last (by simp)
  by_cases hnil : above = []
  · subst above
    rw [List.nil_append, hroot hlast, Path.join_root hstep, hroot hstep]
  · have hnormal : Path.IsNormal (Path.ofNames above) := ⟨above, hnil, habove, rfl⟩
    rw [Path.ofNames_concat hnil, hnormal.directory_child hlast, hnormal.join_child hstep,
      hnormal.directory_child hstep]

theorem directory_of_mem_filesIn {w : World} {path file : String} (hw : w.root.WellFormed)
    (hp : Path.IsNormal path) (hf : file ∈ filesIn w (Path.directory path)) :
    Path.directory file = Path.directory path := by
  rw [filesIn] at hf
  cases hx : Files.list (Path.directory path) w with
  | mk result w' =>
      rw [hx] at hf
      cases result with
      | error stop => cases hf
      | ok entries =>
          obtain ⟨⟨name, node⟩, hmem, rfl⟩ := List.mem_map.mp (Text.Utf16.mem_sort.mp hf)
          obtain ⟨loc, hplace⟩ := Files.place?_of_list hx
          have hfolder := hw.at? (Lookup.place?_found hplace)
          have hlookup := hfolder.sorted.lookup_of_mem (List.mem_filter.mp hmem).1
          exact directory_join hp (hfolder.isName hlookup)

theorem length_filesIn_le {w w' : World} {folder : String} {entries : List (String × Node)}
    (h : Files.list folder w = (.ok entries, w')) : (filesIn w folder).length ≤ entries.length := by
  simp only [filesIn, h, pythonFiles, Text.Utf16.sort, List.length_mergeSort, List.length_map]
  exact List.length_filter_le _ _

/-- A scan reads the files that are reached, and finds their top-level names. -/
theorem run_does (maxDepth : Number) {entry : String} {w : World} (hw : w.root.WellFormed)
    (hp : Path.IsNormal entry) :
    ∃ scan, Does (run maxDepth entry) w scan w.root ∧ scan.visited = reached maxDepth w entry ∧
      scan.names = (reached maxDepth w entry).flatMap (topsOf w) := by
  -- There is room for all files in the folder, whether it can be listed or not.
  obtain ⟨room, w₁, hbegin, he, hle⟩ : ∃ room w₁,
      run maxDepth entry w = walk maxDepth (room + 1) [(entry, 0)] (start entry) w₁ ∧
        w.Evolves w.root w₁ ∧ (filesIn w (Path.directory entry)).length ≤ room := by
    rcases Files.list_observes (Path.directory entry) w with
      ⟨entries, w₁, hx, he⟩ | ⟨failure, w₁, hx, he⟩
    · exact ⟨_, w₁, (bind_ok (attempt_ok hx)).trans (bind_ok (pure_apply _ w₁)), he,
        length_filesIn_le hx⟩
    · refine ⟨0, w₁, (bind_ok (attempt_failed hx)).trans (bind_ok (pure_apply _ w₁)), he, ?_⟩
      rw [filesIn, hx]
      exact Nat.le_refl 0
  obtain ⟨w₂, hx₂, he₂⟩ := readFile_does (start entry) entry w₁
  rw [topsOf_steady he] at hx₂
  simp only [start, List.nil_append] at hx₂ hbegin
  rw [he.root_eq] at he₂
  rw [walk, bind_ok hx₂] at hbegin
  have he := he.trans he₂
  cases hdepth : Number.atMost maxDepth (.ofNat 0) with
  | true =>
      have hreached : reached maxDepth w entry = [entry] := by rw [reached, hdepth]; rfl
      rw [hdepth, if_pos rfl] at hbegin
      refine ⟨⟨topsOf w entry, [entry], []⟩, ⟨w₂, hbegin.trans ?_, he⟩, hreached.symm, ?_⟩
      · cases room <;> rfl
      · rw [hreached, List.flatMap_singleton]
  | false =>
      obtain ⟨w₃, hx₃, he₃⟩ := @siblings_does ⟨topsOf w entry, [entry], []⟩ entry List.lookup_nil w₂
      rw [filesIn_steady he] at hx₃
      rw [he.root_eq] at he₃
      rw [hdepth, if_neg (by decide), bind_ok hx₃] at hbegin
      simp only [List.nil_append] at hbegin
      let new := (filesIn w (Path.directory entry)).filter (!List.contains [entry] ·)
      have hreached : reached maxDepth w entry = [entry] ++ new := by
        rw [reached, hdepth, if_neg (by decide), List.singleton_append]
      have hknown : ∀ file ∈ filesIn w (Path.directory entry), file ∈ [entry] ++ new := by
        intro file hf
        by_cases heq : file = entry
        · exact List.mem_append_left _ (by simp [heq])
        · exact List.mem_append_right _ (List.mem_filter.mpr ⟨hf, by simp [heq]⟩)
      have hfolder : ∀ item ∈ new.map (fun file => (file, 0 + 1)),
          Path.directory item.1 = Path.directory entry := by
        intro item hi
        obtain ⟨file, hf, rfl⟩ := List.mem_map.mp hi
        exact directory_of_mem_filesIn hw hp (List.mem_filter.mp hf).1
      have hlength : (new.map (fun file => (file, 0 + 1))).length ≤ room := by
        rw [List.length_map]
        exact Nat.le_trans (List.length_filter_le _ _) hle
      have hlisted : (⟨topsOf w entry, [entry] ++ new,
          [(Path.directory entry, filesIn w (Path.directory entry))]⟩ : Scan).listings.lookup
            (Path.directory entry) = some (filesIn w (Path.directory entry)) :=
        List.lookup_cons_self
      obtain ⟨w₄, hx₄, he₄⟩ := walk_waiting maxDepth hlisted hknown hfolder hlength w₃
      have he₃ := he.trans he₃
      rw [topsOf_steady he₃, List.map_map] at hx₄
      rw [he₃.root_eq] at he₄
      refine ⟨_, ⟨w₄, hbegin.trans hx₄, he₃.trans he₄⟩, hreached.symm, ?_⟩
      rw [hreached, List.flatMap_append, List.flatMap_singleton]
      simp only [Function.comp_def, List.map_id']

end Scan

end Discovery

/-! ### Files that are read line by line -/

namespace Python

/-- A NUL at the front of a text is no part of a token, whatever the parser can use. -/
theorem Lexer.read?_nul (valid : TokenSet) (start : Bool) (rest : List Char) :
    Lexer.read? valid .initial start ('\x00' :: rest) = none := by
  have hsign : Lexer.sign valid ('\x00' :: rest) = none := by
    have hfirst : Terminal.signs.all (fun pair => pair.1.head?.any (· != '\x00')) = true := by
      decide
    rw [Lexer.sign, Option.map_eq_none_iff, List.find?_eq_none]
    rintro ⟨spelling, t⟩ hp
    have hne := List.all_eq_true.mp hfirst _ hp
    cases spelling with
    | nil => cases hne
    | cons c s =>
        simp only [List.head?_cons, Option.any_some, bne_iff_ne, ne_eq] at hne
        simp [List.isPrefixOf, hne]
  have hline : Layout.read? valid .initial ('\x00' :: rest) = none := by
    have hmargin (comments : Bool) : Layout.margin comments false ⟨false, 0, none, 0⟩
        ('\x00' :: rest) = some ⟨false, 0, none, 0⟩ := by
      rw [Layout.margin.eq_def]
      rfl
    have hquote : Layout.openingQuote ('\x00' :: rest) = none := by
      simp [Layout.openingQuote, runLength, Layout.isQuoteFlag]
    simp [Layout.read?, Layout.stringToken, Layout.initial, Layout.lineToken, hmargin, hquote]
  have hstring : Lexer.insideString valid ('\x00' :: rest) = none := by
    simp [Lexer.insideString, startsWith, runLength, nul]
  have hplain : Lexer.plain valid ('\x00' :: rest) = none := by
    have hstart : Text.isIdentifierStart '\x00' = false := by decide +kernel
    simp only [Lexer.plain, hstart, hsign]
    cases rest <;>
      simp [Lexer.integer, Lexer.float, Lexer.digits, Lexer.digitGroups, Lexer.exponent]
  have hmark : ('\x00' :: rest).drop
      (if start && startsWith '\ufeff' ('\x00' :: rest) then 1 else 0) = '\x00' :: rest := by
    simp [startsWith]
  simp only [Lexer.read?, Lexer.readFrom, hmark, hline, hstring]
  simp [startsWith, runLength, isSeparator, Lexer.joinedLine, hplain]

theorem Reader.advance_nul {r : Reader} {rest : List Char} (hr : r.rest = '\x00' :: rest)
    (hl : r.layout = .initial) : r.advance = [] := by
  rw [advance, hr, hl, Lexer.read?_nul]

/-- A text that begins with a NUL is read line by line. -/
theorem importsOf_nul (rest : List Char) :
    importsOf ('\x00' :: rest) =
      ⟨LinePatterns.scanLines ('\x00' :: rest), .linePatterns⟩ := by
  have hnone : parse? ('\x00' :: rest) = none := by
    obtain ⟨fuel, hfuel⟩ : ∃ fuel, Reader.tokenBound ('\x00' :: rest) = fuel + 1 :=
      ⟨4 * rest.length + 11, by rw [Reader.tokenBound, List.length_cons]; omega⟩
    have hadvance : (Reader.initial ('\x00' :: rest)).advance = [] := Reader.advance_nul rfl rfl
    rw [parse?, hfuel, Reader.run, List.flatMap_singleton, hadvance, Reader.distinct]
  rw [importsOf, hnone]

end Python

namespace Discovery

theorem topsOf_nul {w : World} {file : String} {bytes : Bytes} {rest : List Char}
    (hr : (Files.read file w).1.toOption = some bytes)
    (hd : Text.Utf8.decode bytes = '\x00' :: rest) :
    topsOf w file = (Python.LinePatterns.scanLines ('\x00' :: rest)).map
      fun item => Python.topLevelName item.module := by
  have hread : Files.read file w = (.ok bytes, (Files.read file w).2) :=
    Prod.ext (eq_ok_of_toOption hr) rfl
  obtain ⟨_, w', hlog, -⟩ := Returns.log .parser "syntax errors, falling back to line patterns" []
    (Files.read file w).2
  have himports : Files.imports file w =
      (.ok ⟨Python.LinePatterns.scanLines ('\x00' :: rest), .linePatterns⟩, w') := by
    rw [Files.imports, bind_ok hread, hd, Python.importsOf_nul]
    exact bind_ok hlog
  rw [topsOf, himports]

end Discovery

end ScriptPack
