/-
Locations in the columns of the client.

The search counts characters on the lines of a text; the columns that the client is told are counted
on the line that the cache shows, which may lack a carriage return at its end. A word ends before
that (`Occurs.selected`), so the range of the client selects the name on either line. Every position
of the client comes back as the one it was made from (`Server.charPosition_clientPosition`), so a
lookup at either end of the range is one at the occurrence (`words_again`).
-/
import Usages.Proofs.Preview
import Usages.Proofs.References

namespace Usages

/-- The range lies on the line and selects the name there, in the units of the client: of all texts,
the name alone has the units between its columns. -/
structure Encoding.Selects (encoding : Encoding) (range : Range) (line name : List Char) :
    Prop where
  inside : range.start.column ≤ range.stop.column ∧
    range.stop.column ≤ (encoding.units line).length
  only : ∀ text, encoding.units text =
    (encoding.units line).extract range.start.column range.stop.column ↔ text = name

/-- A word is selected by its columns, also when they are counted on a line that ends earlier. -/
theorem Text.IsRun.selects {line shown : List Char} {start stop : Position}
    (h : IsRun shown start.column stop.column) (hshown : shown <+: line) (encoding : Encoding) :
    encoding.Selects ⟨encoding.ofChars (some shown) start, encoding.ofChars (some shown) stop⟩ line
      (line.extract start.column stop.column) where
  inside := ⟨Nat.le_of_lt (encoding.column_ofChars_lt _ h.lt),
    encoding.column_ofChars_le hshown h.le_length⟩
  only := by
    intro text
    rw [encoding.extract_units hshown (Nat.le_of_lt h.lt) h.le_length]
    constructor
    · exact encoding.units_injective
    · rintro rfl
      rfl

section

variable {read : String → Except SourceError String}

/-- Both ends of an occurrence touch it. -/
theorem Occurs.touched {name : List Char} {location : Location} (h : Occurs read name location)
    {cursor : Position} (hcursor : cursor = location.range.start ∨ cursor = location.range.stop) :
    cursor.line = location.range.start.line ∧ location.range.start.column ≤ cursor.column ∧
      cursor.column ≤ location.range.stop.column := by
  obtain ⟨text, n, line, start, stop, -, -, hrun, -, hrange⟩ := h
  have hlt := hrun.lt
  rw [hrange, Range.onLine] at hcursor ⊢
  rcases hcursor with rfl | rfl
  · exact ⟨rfl, Nat.le_refl _, Nat.le_of_lt hlt⟩
  · exact ⟨rfl, Nat.le_of_lt hlt, Nat.le_refl _⟩

/-- A lookup at a column that touches an occurrence finds it, as the one under the cursor, whatever
other files it searches. -/
theorem words_again {files : List String} {file name : String} {position : Position}
    (h : symbolOf read file position = .ok name) {location : Location}
    (hlocation : location ∈ Locator.wordsIn read files file name.toList) {cursor : Position}
    (hline : cursor.line = location.range.start.line)
    (hstart : location.range.start.column ≤ cursor.column)
    (hstop : cursor.column ≤ location.range.stop.column) (others : List String) :
    (∀ log, (Locator.words (.fixed read) others location.file cursor log).1 =
      .ok (Locator.wordsIn read others location.file name.toList)) ∧
    location ∈ Locator.wordsIn read others location.file name.toList ∧
    ∀ other ∈ Locator.wordsIn read others location.file name.toList,
      other.contains ⟨location.file, cursor⟩ = true ↔ other = location := by
  obtain ⟨line, column⟩ := cursor
  obtain rfl : line = location.range.start.line := hline
  obtain ⟨hsymbol, hcovers⟩ := symbolOf_of_mem_wordsIn h hlocation hstart hstop
  obtain ⟨hne, hid⟩ := isIdentifierChar_of_symbolOf h
  obtain ⟨-, hoccurs⟩ := (Locator.mem_wordsIn hne hid).1 hlocation
  have hagain : location ∈ Locator.wordsIn read others location.file name.toList :=
    (Locator.mem_wordsIn hne hid).2 ⟨List.mem_cons_self, hoccurs⟩
  refine ⟨fun log => words_eq_ok.2 ⟨_, hsymbol, rfl⟩, hagain, fun other hother => ?_⟩
  obtain ⟨under, -, -, hunique⟩ := exists_under_cursor hsymbol others
  constructor
  · intro hcontains
    rw [hunique other hother hcontains, hunique location hagain hcovers]
  · rintro rfl
    exact hcovers

/-- Where the file of the cursor is searched anyway, it does not matter from which of the files the
search starts. -/
theorem wordsIn_of_mem {files : List String} {file other : String} (hfile : file ∈ files)
    (hother : other ∈ file :: files) (name : List Char) :
    Locator.wordsIn read files other name = Locator.wordsIn read files file name := by
  have hmem : other ∈ files := by
    rcases List.mem_cons.1 hother with rfl | hother
    · exact hfile
    · exact hother
  rw [Locator.wordsIn, Locator.candidates_of_mem hfile hmem, Locator.wordsIn]

end

namespace Server

variable {server : Server} {disk : Disk}

/-- The client names a position and means the one it was told of. -/
theorem charPosition_clientPosition {file : String} {position : Position}
    (h : (server.unitPosition disk file position).Fits) :
    server.charPosition disk file (server.clientPosition disk file position) = position := by
  rw [charPosition, clientPosition_of_fits h, Encoding.line_ofChars, Encoding.toChars_ofChars]

theorem range_of_clientLocation? {location : Location} {client : ClientLocation}
    (h : server.clientLocation? disk location = some client) :
    client.range = ⟨server.clientPosition disk location.file location.range.start,
      server.clientPosition disk location.file location.range.stop⟩ := by
  obtain ⟨uri, -, rfl⟩ := Option.map_eq_some_iff.1 h
  rfl

/-- What a search from the place finds is in the answer to the client. -/
theorem exists_references? (place : DocumentPosition) {file : String} {workspace : Option String}
    {project : Project} {files : List String} (huri : place.uri.file? = some file)
    (hproject : server.projectFor disk file = .ok (workspace, project))
    (hfiles : project.discover disk = .ok files) {locations : List Location}
    (hlocate : (Locator.words (.fixed (server.documents.readText disk))
      (files ++ server.openFiles project) file
      (server.charPosition disk file place.position) []).1 = .ok locations)
    {location : Location} (hlocation : location ∈ locations) {client : ClientLocation}
    (hclient : server.clientLocation? disk location = some client) :
    ∃ clients, server.references? disk place true = some clients ∧ client ∈ clients := by
  refine ⟨server.shown disk locations, ?_, List.mem_filterMap.2 ⟨location, hlocation, hclient⟩⟩
  rw [references?_of_files huri hproject hfiles, hlocate]
  simp only [Except.toOption, Option.map_some, Bool.true_or, List.filter_true]

end Server

open Server

/-- The range of the client selects an occurrence on its line, as the search sees the line and as
the cache shows it. -/
theorem Occurs.selected {server : Server} {disk : Disk} {name : List Char} {location : Location}
    (h : Occurs (server.documents.readText disk) name location) :
    ∃ text line shown, server.documents.readText disk location.file = .ok text ∧
      Text.line? text.toList location.range.start.line = some line ∧
      (server.texts disk).line? location.file location.range.start.line = some shown ∧
      ∀ client, server.clientLocation? disk location = some client → server.Fits disk location →
        client.range.start.line = location.range.start.line ∧
        client.range.stop.line = location.range.start.line ∧
        server.encoding.Selects client.range line name ∧
        server.encoding.Selects client.range shown name := by
  obtain ⟨text, n, line, start, stop, hread, hline, hrun, hname, hrange⟩ := h
  obtain ⟨file, range⟩ := location
  subst hrange
  obtain ⟨shown, hshown, hcases⟩ := Text.exists_line?_ofText hline
  obtain ⟨hrun, hspelled, -⟩ := hrun.of_dropReturn hcases
  have hprefix : shown <+: line := by
    rcases hcases with rfl | rfl
    · exact List.prefix_refl _
    · exact Text.prefix_dropReturn line
  have hcache : (server.texts disk).line? file n = some shown := by
    simp only [Texts.line?, texts, hread]
    exact hshown
  refine ⟨text, line, shown, hread, hline, hcache, fun client hclient hfits => ?_⟩
  have hclient := range_of_clientLocation? hclient
  rw [clientPosition_of_fits hfits.1, clientPosition_of_fits hfits.2] at hclient
  simp only [Range.onLine, hcache] at hclient
  rw [hclient]
  refine ⟨Encoding.line_ofChars _ _ _, Encoding.line_ofChars _ _ _, ?_, ?_⟩
  · rw [← hname]
    exact Text.IsRun.selects hrun hprefix server.encoding
  · rw [← hname, ← hspelled]
    exact Text.IsRun.selects hrun (List.prefix_refl _) server.encoding

/-- **The range of the client cuts out the symbol.** For every location that a search from any
cursor finds: with an absolute path it can be shown to the client, under the name of its file. If
line and columns are numbers of 32 bits, the range that is shown lies on the line of the occurrence
and selects there, in the units of the client, the name under the cursor and nothing else, both on
the line that is searched and on the line that the cache shows; and the ends of the range come back
as the ends of the location. A search at either end therefore finds the location again, as the only
one under the cursor; it finds the same locations if the file of the first cursor is among the files
to search. When the client asks for the references at either end, and the files of the project can
be listed, the answer has the location as it was shown before. -/
theorem client_range_selects_symbol {server : Server} {disk : Disk} {files : List String}
    {file : String} {position : Position} {log : List String} {locations : List Location}
    (hlocate : (Locator.words (server.texts disk).source files file position log).1 = .ok locations)
    {location : Location} (hlocation : location ∈ locations) :
    ∃ name text line shown, symbolOf (server.documents.readText disk) file position = .ok name ∧
      server.documents.readText disk location.file = .ok text ∧
      Text.line? text.toList location.range.start.line = some line ∧
      (server.texts disk).line? location.file location.range.start.line = some shown ∧
      (Path.isAbsolute location.file = true → ∃ client,
        server.clientLocation? disk location = some client ∧
        client.uri.file? = some location.file) ∧
      ∀ client, server.clientLocation? disk location = some client → server.Fits disk location →
        client.range.start.line = location.range.start.line ∧
        client.range.stop.line = location.range.start.line ∧
        server.encoding.Selects client.range line name.toList ∧
        server.encoding.Selects client.range shown name.toList ∧
        server.charPosition disk location.file client.range.start = location.range.start ∧
        server.charPosition disk location.file client.range.stop = location.range.stop ∧
        ∀ place ∈ [client.range.start, client.range.stop],
          let cursor := server.charPosition disk location.file place
          (∃ again, (∀ log, (Locator.words (server.texts disk).source files location.file cursor
              log).1 = .ok again) ∧
            location ∈ again ∧
            (∀ other ∈ again, other.contains ⟨location.file, cursor⟩ = true ↔ other = location) ∧
            (file ∈ files → again = locations)) ∧
          (client.uri.file? = some location.file → ∀ workspace project found,
            server.projectFor disk location.file = .ok (workspace, project) →
            project.discover disk = .ok found →
            ∃ clients, server.references? disk ⟨client.uri, place⟩ true = some clients ∧
              client ∈ clients) := by
  have hfixed : (server.texts disk).source = .fixed (server.documents.readText disk) := rfl
  rw [hfixed] at hlocate ⊢
  obtain ⟨name, hsymbol, rfl⟩ := words_eq_ok.1 hlocate
  obtain ⟨hne, hid⟩ := isIdentifierChar_of_symbolOf hsymbol
  obtain ⟨hsearched, hoccurs⟩ := (Locator.mem_wordsIn hne hid).1 hlocation
  obtain ⟨text, line, shown, hread, hline, hcache, hselected⟩ := hoccurs.selected
  refine ⟨name, text, line, shown, hsymbol, hread, hline, hcache, fun habsolute => ?_,
    fun client hclient hfits => ?_⟩
  · obtain ⟨client, hclient, huri, -⟩ := clientLocation?_of_absolute server disk habsolute
    exact ⟨client, hclient, huri⟩
  obtain ⟨hstartLine, hstopLine, hselects, hselectsShown⟩ := hselected client hclient hfits
  have hends := range_of_clientLocation? hclient
  have hback : server.charPosition disk location.file client.range.start =
      location.range.start := by
    rw [hends, charPosition_clientPosition hfits.1]
  have hbackStop : server.charPosition disk location.file client.range.stop =
      location.range.stop := by
    rw [hends, charPosition_clientPosition hfits.2]
  refine ⟨hstartLine, hstopLine, hselects, hselectsShown, hback, hbackStop,
    fun place hplace => ?_⟩
  intro cursor
  have hcursor : cursor = location.range.start ∨ cursor = location.range.stop := by
    simp only [List.mem_cons, List.not_mem_nil, or_false] at hplace
    rcases hplace with rfl | rfl
    · exact .inl hback
    · exact .inr hbackStop
  obtain ⟨hon, hfrom, hto⟩ := hoccurs.touched hcursor
  have hagain := words_again hsymbol hlocation hon hfrom hto
  constructor
  · obtain ⟨hwords, hmem, hunder⟩ := hagain files
    exact ⟨_, hwords, hmem, hunder, fun hfile => wordsIn_of_mem hfile hsearched _⟩
  · intro huri workspace project found hproject hfound
    obtain ⟨hwords, hmem, -⟩ := hagain (found ++ server.openFiles project)
    exact exists_references? ⟨client.uri, place⟩ huri hproject hfound (hwords []) hmem hclient

/-- Characters of two units before and inside a name, and a carriage return behind it that the cache
does not show. -/
theorem client_range_selects_symbol_behind_pairs :
    let server : Server := { documents := ⟨[("/w/a.ts", "let 𝒳a = '😀' + 𝒳a\r")]⟩ }
    let location : Location := ⟨"/w/a.ts", .onLine 0 15 17⟩
    let search := fun position => (Locator.words (server.texts {}).source ["/w/a.ts"] "/w/a.ts"
      position []).1
    ∃ locations client, search ⟨0, 5⟩ = .ok locations ∧ location ∈ locations ∧
      server.clientLocation? {} location = some client ∧ client.range = .onLine 0 17 20 ∧
      server.encoding.Selects client.range "let 𝒳a = '😀' + 𝒳a".toList "𝒳a".toList ∧
      server.charPosition {} "/w/a.ts" client.range.stop = ⟨0, 17⟩ ∧
      search (server.charPosition {} "/w/a.ts" client.range.stop) = .ok locations := by
  intro server location search
  have hsearch : search ⟨0, 5⟩ = .ok [⟨"/w/a.ts", .onLine 0 4 6⟩, location] :=
    toOption_eq_some.1 (by decide +kernel)
  have hclient : server.clientLocation? {} location =
      some ⟨.ofAbsolutePath "/w/a.ts", .onLine 0 17 20⟩ := by decide +kernel
  obtain ⟨name, text, line, shown, hname, -, -, hshown, -, hrange⟩ :=
    client_range_selects_symbol hsearch (by simp : location ∈ _)
  obtain rfl : "𝒳a" = name := by
    have hsymbol : symbolOf (server.documents.readText {}) "/w/a.ts" ⟨0, 5⟩ = .ok "𝒳a" :=
      toOption_eq_some.1 (by decide +kernel)
    exact Except.ok.inj (hsymbol.symm.trans hname)
  obtain rfl : "let 𝒳a = '😀' + 𝒳a".toList = shown := by
    have hline : (server.texts {}).line? "/w/a.ts" 0 = some "let 𝒳a = '😀' + 𝒳a".toList := by
      decide +kernel
    exact Option.some.inj (hline.symm.trans hshown)
  obtain ⟨-, -, -, hselects, -, hback, hagain⟩ := hrange _ hclient (by decide +kernel)
  obtain ⟨again, hagain, -, -, hsame⟩ := (hagain ⟨0, 20⟩ (by simp [Range.onLine])).1
  refine ⟨_, _, hsearch, by simp, hclient, rfl, hselects, hback, ?_⟩
  rw [← hsame (by simp)]
  exact hagain []

end Usages
