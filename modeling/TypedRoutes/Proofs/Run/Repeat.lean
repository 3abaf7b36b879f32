import TypedRoutes.Proofs.Run.Isolation

/-!
# Running again

A second run scans what the first one scanned, finds every output as it is to be, and leaves it
alone. The first run may have made the output directory, which is left out of the second scan; what
it made besides lies inside that directory or on the way to it, and a walk that is blind for both
yields what it yielded. A walk that looks at lists is not blind for a directory on the way that
marks the root of a repository: it makes lists count.
-/

namespace TypedRoutes

namespace Settings

variable {settings : Settings} {workingDirectory : String} {volume after : Volume}
  {files : List SnapshotFile}

section Again

variable [Walker] {request : ScanRequest} {root file : Place}

/-- The first of two runs: it scanned the files of a volume and wrote all results, at least one of
them, so that the output directory is there. -/
structure FirstRun (settings : Settings) (workingDirectory : String) (request : ScanRequest)
    (root : Place) (volume : Volume) (files : List SnapshotFile) (after : Volume) : Prop where
  named : volume.IsNamed
  output : settings.output.chars ≠ []
  neverUp : settings.output.NeverUp
  excluded : request.excluded? = some settings.output
  rooted : volume.placeAt? request.root = some root
  scanned : (request.foundOn volume).map (request.snapshotOn volume) = files.map .ok
  walks : request.WalksOn volume
  blind : Walker.Blind volume (volume.target settings.output)
  touches : settings.Touches volume (files.filterMap (settings.resultOf? workingDirectory))
    (files.filterMap (settings.resultOf? workingDirectory)) after
  reached : after.locate settings.output = .ok (after.target settings.output)
  directory : after.node? (after.target settings.output) = some .directory

variable (h : settings.FirstRun workingDirectory request root volume files after)

include h

/-- Nothing changes but what lies inside the output directory and directories on the way to it. -/
theorem FirstRun.sameOutside : volume.SameOutside (volume.target settings.output) after where
  home := h.touches.home
  directory hnode := h.touches.directory hnode
  node {place} houtside := by
    have hinto {result : RunResult}
        (hresult : result ∈ files.filterMap (settings.resultOf? workingDirectory)) :
        volume.target settings.output <+: volume.target (settings.outputOf result) := by
      obtain ⟨_, _, _, hinto⟩ := leadsInto_of_result h.scanned h.named h.output h.neverUp hresult
      exact hinto.target volume ▸ List.prefix_append _ _
    rcases h.touches.node place with hsame | ⟨_, ⟨_, hresult, rfl, -⟩, -⟩ |
      ⟨⟨_, hresult, hbegins, -⟩, hnone, hdirectory⟩
    · exact .inl hsame
    · exact absurd (hinto hresult) houtside
    · -- a directory was made on the way to an output, and it is not inside the output directory
      refine .inr ⟨?_, hnone, hdirectory⟩
      exact (List.prefix_or_prefix_of_prefix hbegins (hinto hresult)).resolve_right houtside

/-- The second scan leaves the output directory out. -/
theorem FirstRun.excludedOn_after :
    request.excludedOn after = some (volume.target settings.output) := by
  rw [ScanRequest.excludedOn_of_reached h.excluded h.neverUp h.reached h.directory,
    Volume.target_congr h.touches.home settings.output]

/-- The root is where it was. -/
theorem FirstRun.rooted_after : after.placeAt? request.root = some root := by
  obtain ⟨hlocate, hsome⟩ := Volume.placeAt?_eq_some_iff.mp h.rooted
  refine Volume.placeAt?_eq_some_iff.mpr ⟨h.touches.locate hlocate, ?_⟩
  rcases h.touches.node root with hsame | ⟨_, _, _, hfile⟩ | ⟨_, _, hdirectory⟩
  · rw [hsame, hsome]
  · rw [hfile, Option.isSome_some]
  · rw [hdirectory, Option.isSome_some]

/-- The second scan is to find the files that the first one was to find. -/
theorem FirstRun.finds_iff {content : ByteText} :
    request.Finds after root file content ↔ request.Finds volume root file content := by
  have hhome := Volume.target_congr h.touches.home settings.output
  by_cases hbegins : volume.target settings.output <+: root ++ file
  · -- both scans leave out what is in the output directory
    refine iff_of_false (fun hfinds => ?_) fun hfinds => ?_
    · have hexcluded := h.excludedOn_after
      rw [ScanRequest.excludedOn, h.excluded, Option.bind_some] at hexcluded
      exact hfinds.outside _ _ h.excluded hexcluded hbegins
    · exact ScanRequest.outside_of_found h.touches h.excluded h.neverUp h.reached h.directory
        h.named h.rooted ((ScanRequest.mem_foundOn_iff h.named h.rooted).mpr ⟨_, hfinds⟩) hbegins
  · have hsame := h.sameOutside.sameFile hbegins content
    have houtside {other : Volume} (hother : other.target settings.output =
        volume.target settings.output) (path : DiskPath) (directory : Place)
        (hpath : request.excluded? = some path)
        (hdirectory : other.placeAt? path = some directory) : ¬ directory <+: root ++ file := by
      obtain rfl := Option.some.inj (h.excluded.symm.trans hpath)
      rwa [Volume.target_of_locate h.neverUp (Volume.placeAt?_eq_some_iff.mp hdirectory).1,
        hother]
    have hyielded (hnode : volume.node? (root ++ file) = some (.file content)) :
        .ok file ∈ request.walkOn after ↔ .ok file ∈ request.walkOn volume :=
      (h.blind after h.sameOutside _ _).2 root file content h.rooted hnode hbegins
    have hleads (hnode : volume.node? (root ++ file) = some (.file content)) :
        after.locate (request.pathOf file) = .ok (root ++ file) ↔
          volume.locate (request.pathOf file) = .ok (root ++ file) := by
      have hnames : ∀ name ∈ file, IsEntryName name :=
        fun name hmem => h.named.names hnode name (List.mem_append_right _ hmem)
      rw [ScanRequest.locate_pathOf_iff h.rooted hnames hnode,
        ScanRequest.locate_pathOf_iff h.rooted_after hnames (hsame.mpr hnode)]
    constructor
    · intro hfinds
      have hnode := hsame.mp hfinds.stands
      exact ⟨(hyielded hnode).mp hfinds.yielded, (hleads hnode).mp hfinds.leads, hnode,
        hfinds.named, houtside rfl, hfinds.matched⟩
    · intro hfinds
      have hnode := hfinds.stands
      exact ⟨(hyielded hnode).mpr hfinds.yielded, (hleads hnode).mpr hfinds.leads,
        hsame.mpr hnode, hfinds.named, houtside hhome, hfinds.matched⟩

/-- The second scan finds what the first one found. -/
theorem FirstRun.foundOn_eq : request.foundOn after = request.foundOn volume := by
  refine ScanRequest.eq_of_same_members (request.pairwise_foundOn _)
    (request.pairwise_foundOn volume) (request.nodup_foundOn _) (request.nodup_foundOn volume)
    fun file => ?_
  rw [ScanRequest.mem_foundOn_iff (h.touches.named h.named) h.rooted_after,
    ScanRequest.mem_foundOn_iff h.named h.rooted]
  simp only [h.finds_iff]

/-- The second scan reads what the first one read. -/
theorem FirstRun.snapshots_eq :
    (request.foundOn after).map (request.snapshotOn after) = files.map .ok := by
  rw [h.foundOn_eq, ← h.scanned]
  refine List.map_congr_left fun file hfound => ?_
  obtain ⟨content, hfinds⟩ := (ScanRequest.mem_foundOn_iff h.named h.rooted).mp hfound
  obtain ⟨snapshot, -, hread⟩ := List.mem_map.mp (h.scanned ▸ List.mem_map_of_mem hfound)
  rw [← hread]
  exact (h.finds_iff.mpr hfinds).snapshotOn_eq_ok_iff.mpr
    (hfinds.snapshotOn_eq_ok_iff.mp hread.symm)

end Again

/-- A run that succeeds has written all results. -/
theorem all_written {written rest : List RunResult}
    (h : settings.Effect workingDirectory volume files written rest (.ok ()) after) :
    files.filterMap (settings.resultOf? workingDirectory) = written ∧
      settings.Written volume written after := by
  obtain ⟨middle, hwritten, hend⟩ := h.stages
  have hplanned := h.planned
  cases hend with
  | done =>
    rw [List.append_nil] at hplanned
    exact ⟨hplanned, hwritten⟩

section Scanned

variable [Walker] [Globs]

/-- A second run scans what the first one scanned. -/
theorem scannedOn_again (hnamed : volume.IsNamed) (houtput : settings.output.chars ≠ [])
    (hup : settings.output.NeverUp) (hblind : Walker.Blind volume (volume.target settings.output))
    (hscanned : settings.scannedOn volume = .ok files) {written rest : List RunResult}
    (heffect : settings.Effect workingDirectory volume files written rest (.ok ()) after) :
    settings.scannedOn after = .ok files := by
  obtain ⟨hall, hwritten⟩ := all_written heffect
  have hwhole := heffect.planned.symm.trans hall
  cases written with
  | nil =>
    -- without results nothing was touched
    cases hwritten
    exact hscanned
  | cons result others =>
    obtain ⟨request, root, hrequest, hroot, hwalks, hfiles⟩ :=
      (scannedOn_eq_ok hnamed).mp hscanned
    obtain ⟨-, hexcluded, -⟩ := scanRequest_eq_ok hrequest
    have hmem : result ∈ files.filterMap (settings.resultOf? workingDirectory) :=
      hall ▸ List.mem_cons_self
    obtain ⟨_, _, _, hinto⟩ := leadsInto_of_result hfiles hnamed houtput hup hmem
    obtain ⟨_, hlocate, -⟩ :=
      Volume.read_eq_ok_iff.mp (heffect.holds result List.mem_cons_self)
    obtain ⟨hreached, hdirectory⟩ := hinto.through hlocate
    have hfirst : settings.FirstRun workingDirectory request root volume files after := {
      named := hnamed, output := houtput, neverUp := hup, excluded := hexcluded, rooted := hroot
      scanned := hfiles, walks := hwalks, blind := hblind
      reached := hreached, directory := hdirectory
      touches := by
        have htouches := heffect.touches
        rwa [hwhole, ← hall] at htouches }
    exact (scannedOn_eq_ok (hfirst.touches.named hnamed)).mpr ⟨request, root, hrequest,
      hfirst.rooted_after, (hblind after hfirst.sameOutside _ _).1 hwalks, hfirst.snapshots_eq⟩

/-- Running twice is the same as running once if walks are blind for what lies inside the output
directory and for directories on the way to it: the second run scans the same snapshots, finds all
outputs unchanged, and leaves the volume as it is. -/
theorem transform_again (settings : Settings) (workingDirectory : String)
    {volume after : Volume} {lines : List String}
    (hnamed : volume.IsNamed) (houtput : settings.output.chars ≠ [])
    (hup : PathStep.up ∉ settings.output.steps)
    (hblind : Walker.Blind volume (volume.target settings.output))
    (hrun : settings.transformOn workingDirectory false volume = ((.ok (), lines), after)) :
    settings.scannedOn after = settings.scannedOn volume ∧
    (∀ result ∈ settings.resultsOn workingDirectory volume,
      (writeResult false (settings.outputOf result) (settings.textOf result) :
        StateM Volume _) after = (.ok (.unchanged (settings.outputOf result)), after)) ∧
    ∃ front told, lines = front ++ told ∧
      told.length = (settings.resultsOn workingDirectory volume).length ∧
      settings.transformOn workingDirectory false after =
        ((.ok (), front ++ (settings.resultsOn workingDirectory volume).map
          settings.unchangedLine), after) := by
  have hneverUp := DiskPath.neverUp_of_steps hup
  obtain ⟨front, htransform⟩ :=
    settings.transformOn_scanned workingDirectory (settings.scannedOn volume)
  have hrun' := htransform false volume rfl
  rw [hrun] at hrun'
  cases hscanned : settings.scannedOn volume with
  | error problem =>
    rw [hscanned] at hrun'
    cases hrun'
  | ok files =>
    rw [hscanned] at hrun' htransform
    simp only at hrun' htransform
    obtain ⟨written, rest, heffect⟩ :
        ∃ written rest, settings.Effect workingDirectory volume files written rest _ _ :=
      writeAll_effect hnamed houtput hneverUp hscanned front
    obtain ⟨_, _, middle, hplanned, -, hend, told, hlength, hlines⟩ := settings.writeAll_on
      (files.filterMap (settings.resultOf? workingDirectory)) front volume
    rw [← hrun'] at heffect hend hlines
    have hagain := scannedOn_again hnamed houtput hneverUp hblind hscanned heffect
    -- the first run ended well, so that every output holds the text of its result
    obtain ⟨hall, -⟩ := all_written heffect
    have hholds := heffect.holds
    rw [← hall] at hholds
    rw [resultsOn_eq hscanned]
    refine ⟨hagain, fun result hmem => writeResult_unchanged (hholds result hmem), front, told,
      hlines, ?_, ?_⟩
    · rw [hlength, hplanned]
      cases hend
      rw [List.append_nil]
    · rw [htransform false after hagain]
      exact writeAll_on_unchanged hholds front

end Scanned

section Runs

open scoped IgnoreTable Pattern

/-- A volume with two snapshots, and a list that hides one of them inside of repositories. -/
def listedVolume : Volume :=
  (((Volume.bare.addDirectory ["in"]).putFile ["in", ".gitignore"] "B.nestia.json").putFile
    ["in", "A.nestia.json"] "\x7b\"source\":\x7b\"file_name\":\"A\"\x7d\x7d").putFile
      ["in", "B.nestia.json"] "\x7b\"source\":\x7b\"file_name\":\"B\"\x7d\x7d"

/-- The snapshots of that volume. -/
def listedFiles : List SnapshotFile :=
  [⟨.ofString "in/A.nestia.json", .ofString "A.nestia.json",
      "\x7b\"source\":\x7b\"file_name\":\"A\"\x7d\x7d"⟩,
    ⟨.ofString "in/B.nestia.json", .ofString "B.nestia.json",
      "\x7b\"source\":\x7b\"file_name\":\"B\"\x7d\x7d"⟩]

/-- The results go below a directory that marks the root of a repository. -/
def markingSettings : Settings where
  input := .ofString "in"
  output := .ofString "in/.git/out"

/-- No list counts in a volume without repositories. -/
theorem scannedOn_listedVolume {settings : Settings}
    (h : settings = nestedSettings ∨ settings = markingSettings) :
    settings.scannedOn listedVolume = .ok listedFiles := by
  have hroot : listedVolume.placeAt? settings.input = some ["in"] := by
    rcases h with rfl | rfl <;> decide +kernel
  have hfound : ScanRequest.foundOn ⟨settings.input, true, none, some settings.output⟩
      listedVolume = [["A.nestia.json"], ["B.nestia.json"]] := by
    rcases h with rfl | rfl <;>
      exact IgnoreTable.foundOn_eq hroot (by decide +kernel) (by decide +kernel)
        (by decide +kernel) (by decide +kernel)
  refine scannedOn_of_found ?_ (by decide +kernel) hroot hfound ?_
  · rcases h with rfl | rfl <;> rfl
  · rcases h with rfl | rfl <;> decide +kernel

theorem transform_again_listedVolume :
    listedVolume.IsNamed ∧ nestedSettings.output.chars ≠ [] ∧
      PathStep.up ∉ nestedSettings.output.steps ∧
      Walker.Blind listedVolume (listedVolume.target nestedSettings.output) ∧
      nestedSettings.scannedOn (nestedSettings.transformOn "/" false listedVolume).2 =
        .ok listedFiles := by
  have hnamed : listedVolume.IsNamed := by decide +kernel
  have houtput : nestedSettings.output.chars ≠ [] := by decide
  have hup : PathStep.up ∉ nestedSettings.output.steps := by decide
  have hblind : Walker.Blind listedVolume (listedVolume.target nestedSettings.output) :=
    IgnoreTable.blind hnamed (by decide +kernel)
  have hscanned := scannedOn_listedVolume (.inl rfl)
  have hok : (nestedSettings.transformOn "/" false listedVolume).1.1 = .ok () := by
    rw [transformOn_eq hscanned]
    decide +kernel
  refine ⟨hnamed, houtput, hup, hblind, ?_⟩
  exact (transform_again nestedSettings "/" hnamed houtput hup hblind
    (Prod.ext (Prod.ext hok rfl) rfl)).1.trans hscanned

/-- A directory that is made on the way to the results marks the scanned directory as a repository,
and a list that did not count hides a snapshot from the second run. -/
theorem transform_again_marked :
    listedVolume.IsNamed ∧ markingSettings.output.chars ≠ [] ∧
      PathStep.up ∉ markingSettings.output.steps ∧
      (markingSettings.transformOn "/" false listedVolume).1.1 = .ok () ∧
      markingSettings.scannedOn (markingSettings.transformOn "/" false listedVolume).2 ≠
        markingSettings.scannedOn listedVolume := by
  have hscanned := scannedOn_listedVolume (.inr rfl)
  refine ⟨by decide +kernel, by decide, by decide, ?_, ?_⟩
  · rw [transformOn_eq hscanned]
    decide +kernel
  · rw [hscanned, transformOn_eq hscanned]
    intro hagain
    obtain ⟨request, root, hrequest, -, -, hfiles⟩ :=
      (scannedOn_eq_ok (by decide +kernel)).mp hagain
    obtain rfl : ⟨markingSettings.input, true, none, some markingSettings.output⟩ = request :=
      Except.ok.inj hrequest
    generalize hafter : ((markingSettings.continueWith "/" listedFiles >>= fun made =>
      markingSettings.writeAll false (made.getD [])).on
        ["Scanning for type snapshots..."] listedVolume).2 = after at hfiles
    have hroot : after.placeAt? markingSettings.input = some ["in"] := by
      rw [← hafter]
      decide +kernel
    have hfound : ScanRequest.foundOn
        ⟨markingSettings.input, true, none, some markingSettings.output⟩ after =
          [["A.nestia.json"]] := by
      subst hafter
      exact IgnoreTable.foundOn_eq hroot (by decide +kernel) (by decide +kernel)
        (by decide +kernel) (by decide +kernel)
    rw [hfound] at hfiles
    exact absurd (congrArg List.length hfiles) (by simp [listedFiles])

end Runs

end Settings

end TypedRoutes
