import Mathlib.Data.List.Count
import Mathlib.Data.List.Nodup
import Cadsa.Core.Discovery
import Cadsa.Core.LiveTail

/-! From discovery to ingestion. `start_watching` makes one handler for each entry of the list
that discovery returns, and every handler reads the file on its own; `one_ingestion_iff` says for
which lists a line is handed on once. -/
namespace Cadsa.Watching
open Discovery LogWatcher LiveTail Utf8 PyText PosixPath PyJson
set_option autoImplicit false

/-- The part of `lifespan` that looks for the log files and starts to watch them. -/
def lifespan (fromtimestamp : ℚ → FromTimestamp) (m : Machine) (cfg : Settings) (fs : FileSystem) (cwd : String)
    (cutoffTs : Option Instant) (getLastTs : String → Option Instant) :
    Except PyError (List LogFileHandler × List IngestCall) := do
  let (result, _) ← discoverCaddyLogs m cfg
  pure (if result.success then startWatching fromtimestamp fs cwd cutoffTs getLastTs result.logFiles else ([], []))

/-! ## After startup -/

inductive Event where
  /-- A whole line is written to the file at an absolute path. -/
  | append (path : String) (line : Line)
  /-- A handler receives the event that a file was modified. -/
  | modified (handler : ℕ) (srcPath : String)

structure Watchers where
  fs : FileSystem
  tails : List (LogFileHandler × List IngestCall)

def appendTo (fs : FileSystem) (path : String) (data : Bytes) : FileSystem :=
  fun p => if p = path then (fs p).map (· ++ data) else fs p

def receive (fs : FileSystem) (cwd srcPath : String) (tail : LogFileHandler × List IngestCall) :
    LogFileHandler × List IngestCall :=
  let r := tail.1.onModified fs cwd srcPath
  (r.1, tail.2 ++ r.2)

def Watchers.step (cwd : String) (s : Watchers) : Event → Watchers
  | .append path line => { s with fs := appendTo s.fs path (encode (line.text ++ ['\n'])) }
  | .modified handler srcPath => { s with tails := s.tails.modify handler (receive s.fs cwd srcPath) }

def Watchers.run (cwd : String) (s : Watchers) (es : List Event) : Watchers := es.foldl (Watchers.step cwd) s

@[simp] theorem Watchers.run_nil (cwd : String) (s : Watchers) : s.run cwd [] = s := rfl

@[simp] theorem Watchers.run_cons (cwd : String) (s : Watchers) (e : Event) (es : List Event) :
    s.run cwd (e :: es) = (s.step cwd e).run cwd es := rfl

def Watchers.started (fs : FileSystem) (handlers : List LogFileHandler) : Watchers :=
  ⟨fs, handlers.map fun h => (h, [])⟩

def appendedTo (path : String) : List Event → List Line
  | [] => []
  | .append p line :: es => if p = path then line :: appendedTo path es else appendedTo path es
  | .modified _ _ :: es => appendedTo path es

/-- Every append is followed by an event for it at each of the handlers. -/
def Delivered (cwd : String) (handlers : ℕ) (es : List Event) : Prop :=
  ∀ before path line after, es = before ++ .append path line :: after →
    ∀ i < handlers, ∃ srcPath, .modified i srcPath ∈ after ∧ abspath cwd srcPath = path

def callsOf (path : String) (calls : List IngestCall) : List IngestCall := calls.filter (·.logSource = path)

/-- The lines appended to a file named in the list are handed on once each, and the backfill
hands on no line that was present twice. -/
def OneIngestion (fs : FileSystem) (cwd : String) (logFiles : List String)
    (started : List LogFileHandler × List IngestCall) : Prop :=
  ∀ filepath ∈ logFiles, ∀ content, fs (abspath cwd filepath) = some content →
    (∀ es, Delivered cwd started.1.length es →
      callsOf (abspath cwd filepath) (((Watchers.started fs started.1).run cwd es).tails.flatMap (·.2)) =
        callsFor (abspath cwd filepath) ((appendedTo (abspath cwd filepath) es).map Line.text)) ∧
    (callsOf (abspath cwd filepath) started.2).Sublist
      ((fileLines content).map fun line => ⟨decode (rstrip line), abspath cwd filepath⟩)

def named (fs : FileSystem) (cwd : String) (logFiles : List String) : List String :=
  (logFiles.map (abspath cwd)).filter fun path => (fs path).isSome

/-! ## One handler -/

/-- What tail `i` still has to read of its file, and what it has handed on. -/
def Follows (s : Watchers) (i : ℕ) (path : String) (written pending : List Line) : Prop :=
  ∃ h calls content done, s.tails[i]? = some (h, calls) ∧ s.fs path = some content ∧ h.filepath = path ∧
    h.pos ≤ content.length ∧ content.drop h.pos = encode (unlines (pending.map Line.text)) ∧
    written = done ++ pending ∧ calls = callsFor path (done.map Line.text)

theorem Follows.append {s : Watchers} {i : ℕ} {path : String} {written pending : List Line}
    (h : Follows s i path written pending) (cwd : String) (line : Line) :
    Follows (s.step cwd (.append path line)) i path (written ++ [line]) (pending ++ [line]) := by
  obtain ⟨h, calls, content, done, ht, hf, hp, hl, hd, hw, hc⟩ := h
  refine ⟨h, calls, content ++ encode (line.text ++ ['\n']), done, ht, ?_, hp, ?_, ?_, ?_, hc⟩
  · simp [Watchers.step, appendTo, hf]
  · simp only [List.length_append]
    omega
  · rw [List.drop_append_of_le_length hl, hd, ← encode_append, List.map_append, unlines_append]
    simp [unlines]
  · rw [hw, List.append_assoc]

theorem Follows.append_other {s : Watchers} {i : ℕ} {path : String} {written pending : List Line}
    (h : Follows s i path written pending) (cwd : String) {p : String} (hp : p ≠ path) (line : Line) :
    Follows (s.step cwd (.append p line)) i path written pending := by
  obtain ⟨h, calls, content, done, ht, hf, hrest⟩ := h
  refine ⟨h, calls, content, done, ht, ?_, hrest⟩
  simp [Watchers.step, appendTo, hf, hp.symm]

theorem Follows.read {s : Watchers} {i : ℕ} {path : String} {written pending : List Line}
    (h : Follows s i path written pending) {cwd srcPath : String} (hs : abspath cwd srcPath = path) :
    Follows (s.step cwd (.modified i srcPath)) i path written [] := by
  obtain ⟨h, calls, content, done, ht, hf, hp, hl, hd, hw, hc⟩ := h
  have hr : receive s.fs cwd srcPath (h, calls) = ({ h with pos := content.length },
      calls ++ (pieces (unlines (pending.map Line.text))).map (⟨·, path⟩)) := by
    simp only [receive, LogFileHandler.onModified, hs, hp, ne_eq, not_true_eq_false, if_false,
      LogFileHandler.readNewLines, hf, LogFileHandler.readContent_eq, LogFileHandler.start_of_le hl, hd, decode_encode]
  refine ⟨{ h with pos := content.length }, calls ++ (pieces (unlines (pending.map Line.text))).map (⟨·, path⟩),
    content, written, ?_, hf, hp, le_rfl, ?_, by simp, ?_⟩
  · exact (List.getElem?_modify_eq _ _ _).trans (by rw [ht]; exact congrArg some hr)
  · rw [List.drop_length]
    rfl
  · rw [hw, hc, List.map_append, callsFor_append, callsFor_lines path pending]

theorem Follows.read_other {s : Watchers} {i : ℕ} {path : String} {written pending : List Line}
    (h : Follows s i path written pending) {cwd srcPath : String} {j : ℕ}
    (hn : ¬ (j = i ∧ abspath cwd srcPath = path)) : Follows (s.step cwd (.modified j srcPath)) i path written pending := by
  obtain ⟨h, calls, content, done, ht, hf, hp, hrest⟩ := h
  refine ⟨h, calls, content, done, ?_, hf, hp, hrest⟩
  by_cases hj : j = i
  · subst hj
    have hr : receive s.fs cwd srcPath (h, calls) = (h, calls) := by
      have ha : abspath cwd srcPath ≠ h.filepath := fun ha => hn ⟨rfl, ha.trans hp⟩
      simp [receive, LogFileHandler.onModified, ha]
    exact (List.getElem?_modify_eq _ _ _).trans (by rw [ht]; exact congrArg some hr)
  · exact (List.getElem?_modify_ne _ _ hj).trans ht

/-- Without an append behind it a read leaves nothing to be read, and each append has one behind it. -/
theorem Follows.run {cwd : String} {i n : ℕ} {path : String} (hi : i < n) (es : List Event) {s : Watchers}
    {written pending : List Line} (h : Follows s i path written pending) (hd : Delivered cwd n es)
    (hp : pending = [] ∨ ∃ srcPath, .modified i srcPath ∈ es ∧ abspath cwd srcPath = path) :
    Follows (s.run cwd es) i path (written ++ appendedTo path es) [] := by
  induction es generalizing s written pending with
  | nil =>
    obtain rfl : pending = [] := hp.resolve_right (by simp)
    simpa [appendedTo] using h
  | cons e es ih =>
    have hd' : Delivered cwd n es := fun before p line after he => by
      exact hd (e :: before) p line after (by rw [he, List.cons_append])
    cases e with
    | append p line =>
      by_cases hpath : p = path
      · subst hpath
        have hnext := hd [] p line es rfl i hi
        have := ih (h.append cwd line) hd' (.inr hnext)
        simpa [appendedTo, List.append_assoc] using this
      · have := ih (h.append_other cwd hpath line) hd' (hp.imp_right fun ⟨src, hm, ha⟩ => ⟨src, by simpa using hm, ha⟩)
        simpa [appendedTo, hpath] using this
    | modified j srcPath =>
      by_cases hr : j = i ∧ abspath cwd srcPath = path
      · obtain ⟨rfl, ha⟩ := hr
        have := ih (h.read ha) hd' (.inl rfl)
        simpa [appendedTo] using this
      · have := ih (h.read_other hr) hd' (hp.imp_right fun ⟨src, hm, ha⟩ => ⟨src, by
          rcases List.mem_cons.mp hm with he | hm
          · injection he with h1 h2
            exact absurd ⟨h1.symm, h2 ▸ ha⟩ hr
          · exact hm, ha⟩)
        simpa [appendedTo] using this

/-! ## Startup -/

section
variable (fromtimestamp : ℚ → FromTimestamp) (fs : FileSystem) (cwd : String) (cutoffTs : Option Instant)
  (getLastTs : String → Option Instant)

theorem watchFile_none {filepath : String} (h : fs (abspath cwd filepath) = none) :
    watchFile fromtimestamp fs cwd cutoffTs getLastTs filepath = none := by
  simp [watchFile, h]

theorem watchFile_some {filepath : String} {content : Bytes} (h : fs (abspath cwd filepath) = some content) :
    ∃ calls, watchFile fromtimestamp fs cwd cutoffTs getLastTs filepath =
        some (⟨abspath cwd filepath, content.length⟩, calls) ∧
      calls.Sublist ((fileLines content).map fun line => ⟨decode (rstrip line), abspath cwd filepath⟩) := by
  cases cutoffTs with
  | none => exact ⟨[], by simp [watchFile, LogFileHandler.init, h], List.nil_sublist _⟩
  | some cutoff =>
    refine ⟨_, by simp [watchFile, LogFileHandler.init, LogFileHandler.backfill, h]; rfl, ?_⟩
    have := (scan_sublist fromtimestamp cutoff (getLastTs filepath) (fileLines content)).map
      fun raw => IngestCall.mk (decode raw) (abspath cwd filepath)
    rwa [List.map_map] at this

theorem filepaths_watched (logFiles : List String) :
    (logFiles.filterMap (watchFile fromtimestamp fs cwd cutoffTs getLastTs)).map (·.1.filepath) =
      named fs cwd logFiles := by
  induction logFiles with
  | nil => rfl
  | cons f files ih =>
    rw [named, List.map_cons]
    cases h : fs (abspath cwd f) with
    | none =>
      rw [List.filterMap_cons_none (watchFile_none fromtimestamp fs cwd cutoffTs getLastTs h),
        List.filter_cons_of_neg (by simp [h])]
      exact ih
    | some content =>
      obtain ⟨calls, hw, -⟩ := watchFile_some fromtimestamp fs cwd cutoffTs getLastTs h
      rw [List.filterMap_cons_some hw, List.filter_cons_of_pos (by simp [h]), List.map_cons]
      exact congrArg _ ih

theorem mem_watched {logFiles : List String} {t : LogFileHandler × List IngestCall}
    (h : t ∈ logFiles.filterMap (watchFile fromtimestamp fs cwd cutoffTs getLastTs)) :
    ∃ content, fs t.1.filepath = some content ∧ t.1.pos = content.length ∧
      t.2.Sublist ((fileLines content).map fun line => ⟨decode (rstrip line), t.1.filepath⟩) := by
  obtain ⟨f, -, hw⟩ := List.mem_filterMap.mp h
  cases hf : fs (abspath cwd f) with
  | none =>
    rw [watchFile_none fromtimestamp fs cwd cutoffTs getLastTs hf] at hw
    cases hw
  | some content =>
    obtain ⟨calls, hw', hs⟩ := watchFile_some fromtimestamp fs cwd cutoffTs getLastTs hf
    rw [hw'] at hw
    cases hw
    exact ⟨content, hf, rfl, hs⟩

end

/-! ## All handlers -/

def allCalls (tails : List (String × List IngestCall)) : List IngestCall := tails.flatMap (·.2)

def OwnCalls (tails : List (String × List IngestCall)) : Prop := ∀ t ∈ tails, ∀ c ∈ t.2, c.logSource = t.1

theorem callsOf_append (path : String) (cs ds : List IngestCall) :
    callsOf path (cs ++ ds) = callsOf path cs ++ callsOf path ds := List.filter_append ..

theorem callsOf_own {path : String} {cs : List IngestCall} (h : ∀ c ∈ cs, c.logSource = path) :
    callsOf path cs = cs := List.filter_eq_self.mpr fun c hc => by simp [h c hc]

theorem callsOf_other {path p : String} {cs : List IngestCall} (h : ∀ c ∈ cs, c.logSource = p) (hp : p ≠ path) :
    callsOf path cs = [] := List.filter_eq_nil_iff.mpr fun c hc => by simp [h c hc, hp]

theorem callsOf_allCalls {tails : List (String × List IngestCall)} (ho : OwnCalls tails)
    (hn : (tails.map (·.1)).Nodup) {t : String × List IngestCall} (ht : t ∈ tails) :
    callsOf t.1 (allCalls tails) = t.2 := by
  induction tails with
  | nil => simp at ht
  | cons u tails ih =>
    have ho' : OwnCalls tails := fun v hv => ho v (List.mem_cons_of_mem _ hv)
    have hu := ho u (by simp)
    rw [List.map_cons, List.nodup_cons] at hn
    rw [allCalls, List.flatMap_cons, callsOf_append]
    rcases List.mem_cons.mp ht with rfl | ht
    · have hrest : callsOf t.1 (allCalls tails) = [] := by
        refine List.filter_eq_nil_iff.mpr fun c hc => ?_
        obtain ⟨v, hv, hc⟩ := List.mem_flatMap.mp hc
        have : v.1 ≠ t.1 := fun he => hn.1 (he ▸ List.mem_map_of_mem hv)
        simp [ho' v hv c hc, this]
      rw [callsOf_own hu, show callsOf t.1 (tails.flatMap (·.2)) = [] from hrest, List.append_nil]
    · have hne : u.1 ≠ t.1 := fun he => hn.1 (he ▸ List.mem_map_of_mem ht)
      rw [callsOf_other hu hne, List.nil_append]
      exact ih ho' hn.2 ht

theorem length_callsOf_allCalls {tails : List (String × List IngestCall)} (ho : OwnCalls tails) {path : String}
    (h1 : ∀ t ∈ tails, t.1 = path → t.2.length = 1) :
    (callsOf path (allCalls tails)).length = (tails.map (·.1)).count path := by
  induction tails with
  | nil => rfl
  | cons u tails ih =>
    have ho' : OwnCalls tails := fun v hv => ho v (List.mem_cons_of_mem _ hv)
    have hu := ho u (by simp)
    have ih := ih ho' fun t ht => h1 t (List.mem_cons_of_mem _ ht)
    rw [allCalls, List.flatMap_cons, callsOf_append, List.length_append, List.map_cons, List.count_cons]
    change _ + (callsOf path (allCalls tails)).length = _
    rw [ih]
    by_cases hp : u.1 = path
    · rw [callsOf_own (hp ▸ hu), h1 u (by simp) hp]
      simp [hp, Nat.add_comm]
    · rw [callsOf_other hu hp]
      simp [hp]

theorem length_run (cwd : String) (s : Watchers) (es : List Event) :
    (s.run cwd es).tails.length = s.tails.length := by
  induction es generalizing s with
  | nil => rfl
  | cons e es ih =>
    rw [Watchers.run_cons, ih]
    cases e with
    | append path line => rfl
    | modified i srcPath => exact List.length_modify ..

theorem tails_run {fs : FileSystem} {cwd : String} {handlers : List LogFileHandler}
    (hf : ∀ h ∈ handlers, ∃ content, fs h.filepath = some content ∧ h.pos = content.length) {es : List Event}
    (hd : Delivered cwd handlers.length es) :
    ((Watchers.started fs handlers).run cwd es).tails.map (fun t => (t.1.filepath, t.2)) =
      handlers.map fun h => (h.filepath, callsFor h.filepath ((appendedTo h.filepath es).map Line.text)) := by
  refine List.ext_getElem (by simp [length_run, Watchers.started]) fun i h₁ h₂ => ?_
  have hi : i < handlers.length := by simpa using h₂
  obtain ⟨content, hc, hp⟩ := hf handlers[i] (List.getElem_mem hi)
  have hstart : Follows (.started fs handlers) i handlers[i].filepath [] [] :=
    ⟨handlers[i], [], content, [], by simp [Watchers.started, hi], hc, rfl, hp.le, by rw [hp, List.drop_length]; rfl,
      rfl, rfl⟩
  obtain ⟨h, calls, -, done, ht, -, hpath, -, -, hw, hcalls⟩ := hstart.run hi es hd (.inl rfl)
  rw [List.append_nil, List.nil_append] at hw
  rw [List.getElem_map, List.getElem_map]
  obtain ⟨hlt, ht⟩ := List.getElem?_eq_some_iff.mp ht
  rw [ht, hpath, hcalls, hw]

theorem ownCalls_callsFor (handlers : List LogFileHandler) (es : List Event) :
    OwnCalls (handlers.map fun h => (h.filepath, callsFor h.filepath ((appendedTo h.filepath es).map Line.text))) := by
  intro t ht c hc
  obtain ⟨h, -, rfl⟩ := List.mem_map.mp ht
  obtain ⟨l, -, rfl⟩ := List.mem_map.mp hc
  rfl

/-! ## One ingestion -/

theorem flatMap_calls (tails : List (LogFileHandler × List IngestCall)) :
    tails.flatMap (·.2) = allCalls (tails.map fun t => (t.1.filepath, t.2)) := by
  rw [allCalls, List.flatMap_map]

def lineX : Line := ⟨['x'], by decide, by decide⟩

def oneLine (path srcPath : String) (handlers : ℕ) : List Event :=
  .append path lineX :: (List.range handlers).map fun i => .modified i srcPath

theorem appendedTo_modified (path srcPath : String) (is : List ℕ) :
    appendedTo path (is.map fun i => .modified i srcPath) = [] := by
  induction is with
  | nil => rfl
  | cons i is ih => exact ih

theorem appendedTo_oneLine (path srcPath : String) (handlers : ℕ) :
    appendedTo path (oneLine path srcPath handlers) = [lineX] := by
  rw [oneLine, appendedTo, if_pos rfl, appendedTo_modified]

theorem delivered_oneLine {cwd path srcPath : String} (hs : abspath cwd srcPath = path) (handlers : ℕ) :
    Delivered cwd handlers (oneLine path srcPath handlers) := by
  intro before p line after he i hi
  cases before with
  | nil =>
    injection he with h1 h2
    injection h1 with h3 h4
    subst h3
    exact ⟨srcPath, h2 ▸ List.mem_map.mpr ⟨i, List.mem_range.mpr hi, rfl⟩, hs⟩
  | cons e before =>
    -- only the first event is an append
    injection he with h1 h2
    have hm : Event.append p line ∈ (List.range handlers).map fun i => Event.modified i srcPath := by
      rw [h2]
      simp
    obtain ⟨j, -, hj⟩ := List.mem_map.mp hm
    cases hj

section
variable {fs : FileSystem} {cwd : String} {logFiles : List String} {watched : List (LogFileHandler × List IngestCall)}
  (hpaths : watched.map (·.1.filepath) = named fs cwd logFiles)
  (hmem : ∀ t ∈ watched, ∃ content, fs t.1.filepath = some content ∧ t.1.pos = content.length ∧
    t.2.Sublist ((fileLines content).map fun line => ⟨decode (rstrip line), t.1.filepath⟩))
include hmem in
theorem handlers_at_end :
    ∀ h ∈ watched.map (·.1), ∃ content, fs h.filepath = some content ∧ h.pos = content.length := by
  intro h hh
  obtain ⟨t, ht, rfl⟩ := List.mem_map.mp hh
  obtain ⟨content, hc, hp, -⟩ := hmem t ht
  exact ⟨content, hc, hp⟩

include hpaths hmem

theorem oneIngestion_of_nodup (hn : (named fs cwd logFiles).Nodup) :
    OneIngestion fs cwd logFiles (watched.map (·.1), watched.flatMap (·.2)) := by
  intro filepath hf content hc
  have hin : abspath cwd filepath ∈ watched.map (·.1.filepath) := by
    rw [hpaths, named, List.mem_filter]
    exact ⟨List.mem_map_of_mem hf, by simp [hc]⟩
  obtain ⟨t, ht, hpath⟩ := List.mem_map.mp hin
  rw [← hpath] at hc ⊢
  have hhandlers := handlers_at_end hmem
  refine ⟨fun es hd => ?_, ?_⟩
  · rw [flatMap_calls, tails_run hhandlers hd]
    have hnodup : (((watched.map (·.1)).map fun h =>
        (h.filepath, callsFor h.filepath ((appendedTo h.filepath es).map Line.text))).map (·.1)).Nodup := by
      rw [List.map_map, List.map_map]
      exact hpaths ▸ hn
    exact callsOf_allCalls (ownCalls_callsFor _ es) hnodup (List.mem_map_of_mem (List.mem_map_of_mem ht))
  · have hown : OwnCalls (watched.map fun t => (t.1.filepath, t.2)) := by
      intro u hu c hc
      obtain ⟨v, hv, rfl⟩ := List.mem_map.mp hu
      obtain ⟨_, -, -, hs⟩ := hmem v hv
      obtain ⟨l, -, rfl⟩ := List.mem_map.mp (hs.subset hc)
      rfl
    have hcalls := callsOf_allCalls hown (by rw [List.map_map]; exact hpaths ▸ hn) (List.mem_map_of_mem ht)
    rw [flatMap_calls, hcalls]
    obtain ⟨c, hc', -, hs⟩ := hmem t ht
    obtain rfl : c = content := Option.some.inj (hc'.symm.trans hc)
    exact hs

theorem nodup_of_oneIngestion (h : OneIngestion fs cwd logFiles (watched.map (·.1), watched.flatMap (·.2))) :
    (named fs cwd logFiles).Nodup := by
  rw [List.nodup_iff_count_le_one]
  intro path
  by_cases hin : path ∈ named fs cwd logFiles
  · rw [named, List.mem_filter, List.mem_map] at hin
    obtain ⟨⟨filepath, hf, rfl⟩, hc⟩ := hin
    obtain ⟨content, hc⟩ := Option.isSome_iff_exists.mp hc
    have hhandlers := handlers_at_end hmem
    have hd : Delivered cwd (watched.map (·.1)).length (oneLine (abspath cwd filepath) filepath _) :=
      delivered_oneLine rfl _
    have hone := (h filepath hf content hc).1 _ hd
    have hlen := congrArg List.length hone
    rw [flatMap_calls, tails_run hhandlers hd, length_callsOf_allCalls (ownCalls_callsFor _ _), List.map_map,
      List.map_map, appendedTo_oneLine] at hlen
    · exact hpaths ▸ hlen.le
    · intro t ht hp
      obtain ⟨u, -, rfl⟩ := List.mem_map.mp ht
      have hpath : u.filepath = abspath cwd filepath := hp
      simp only [hpath, appendedTo_oneLine]
      rfl
  · exact (List.count_eq_zero.mpr hin).le.trans (Nat.zero_le 1)

end

theorem oneIngestion_startWatching_iff (fromtimestamp : ℚ → FromTimestamp) (fs : FileSystem) (cwd : String)
    (cutoffTs : Option Instant) (getLastTs : String → Option Instant) (logFiles : List String) :
    OneIngestion fs cwd logFiles (startWatching fromtimestamp fs cwd cutoffTs getLastTs logFiles) ↔
      (named fs cwd logFiles).Nodup := by
  have hpaths := filepaths_watched fromtimestamp fs cwd cutoffTs getLastTs logFiles
  have hmem : ∀ t ∈ logFiles.filterMap (watchFile fromtimestamp fs cwd cutoffTs getLastTs), _ :=
    fun t ht => mem_watched fromtimestamp fs cwd cutoffTs getLastTs ht
  exact ⟨nodup_of_oneIngestion hpaths hmem, oneIngestion_of_nodup hpaths hmem⟩

theorem lifespan_eq {fromtimestamp : ℚ → FromTimestamp} {m : Machine} {cfg : Settings} {fs : FileSystem}
    {cwd : String} {cutoffTs : Option Instant} {getLastTs : String → Option Instant} {result : DiscoveryResult}
    {tried : List String} (hd : discoverCaddyLogs m cfg = .ok (result, tried)) :
    lifespan fromtimestamp m cfg fs cwd cutoffTs getLastTs =
      .ok (startWatching fromtimestamp fs cwd cutoffTs getLastTs result.logFiles) := by
  have hrun : lifespan fromtimestamp m cfg fs cwd cutoffTs getLastTs = .ok
      (if result.success then startWatching fromtimestamp fs cwd cutoffTs getLastTs result.logFiles else ([], [])) := by
    simp only [lifespan, hd, bind, Except.bind, pure, Except.pure]
  rw [hrun]
  cases hs : result.success with
  | true => rfl
  | false =>
    rw [sound_discover hd hs]
    rfl

/-- **One ingestion.** Whatever discovery returns, a line is handed on once if and only if no two
entries of its list name the same file. -/
theorem one_ingestion_iff {fromtimestamp : ℚ → FromTimestamp} {m : Machine} {cfg : Settings} {fs : FileSystem}
    {cwd : String} {cutoffTs : Option Instant} {getLastTs : String → Option Instant} {result : DiscoveryResult}
    {tried : List String} {started : List LogFileHandler × List IngestCall}
    (hd : discoverCaddyLogs m cfg = .ok (result, tried))
    (hs : lifespan fromtimestamp m cfg fs cwd cutoffTs getLastTs = .ok started) :
    OneIngestion fs cwd result.logFiles started ↔ (named fs cwd result.logFiles).Nodup := by
  rw [lifespan_eq hd] at hs
  cases hs
  exact oneIngestion_startWatching_iff fromtimestamp fs cwd cutoffTs getLastTs result.logFiles

def withCaddyfile (text : String) : Machine where
  get _ := .error "Cannot connect"
  readText _ := .ok text.toList
  readLines _ := []
  loads _ := none
  containerRepr _ := ""
  setOrder := ⟨id, fun l => List.Perm.refl l⟩
  cmdlines := []
  userCaddyfile := "/root/.config/caddy/Caddyfile"
  isFile _ := false
  scandir _ := []

def fromCaddyfile : Settings := ⟨"", false, "/etc/caddy/Caddyfile", []⟩

theorem one_ingestion_two_files :
    let text := "a \x7b log \x7b output file /a.log \x7d \x7d\nb \x7b log \x7b output file /b.log \x7d \x7d\n"
    ∃ result tried started, discoverCaddyLogs (withCaddyfile text) fromCaddyfile = .ok (result, tried) ∧
      lifespan (fun _ => .valueError) (withCaddyfile text) fromCaddyfile (fun _ => some []) "/" none (fun _ => none) =
        .ok started ∧ result.logFiles = ["/a.log", "/b.log"] ∧
      OneIngestion (fun _ => some []) "/" result.logFiles started := by
  intro text
  have hd : ∃ result tried, discoverCaddyLogs (withCaddyfile text) fromCaddyfile = .ok (result, tried) ∧
      result.logFiles = ["/a.log", "/b.log"] := ⟨_, _, rfl, by decide⟩
  obtain ⟨result, tried, hd, hl⟩ := hd
  refine ⟨result, tried, _, hd, lifespan_eq hd, hl, (one_ingestion_iff hd (lifespan_eq hd)).mpr ?_⟩
  rw [hl]
  decide

theorem same_file_twice :
    let text := "a \x7b log \x7b output file /a.log \x7d \x7d\nb \x7b log \x7b output file /a.log \x7d \x7d\n"
    ∃ result tried started, discoverCaddyLogs (withCaddyfile text) fromCaddyfile = .ok (result, tried) ∧
      lifespan (fun _ => .valueError) (withCaddyfile text) fromCaddyfile (fun _ => some []) "/" none (fun _ => none) =
        .ok started ∧ result.logFiles = ["/a.log", "/a.log"] ∧
      ¬ OneIngestion (fun _ => some []) "/" result.logFiles started := by
  intro text
  have hd : ∃ result tried, discoverCaddyLogs (withCaddyfile text) fromCaddyfile = .ok (result, tried) ∧
      result.logFiles = ["/a.log", "/a.log"] := ⟨_, _, rfl, by decide⟩
  obtain ⟨result, tried, hd, hl⟩ := hd
  refine ⟨result, tried, _, hd, lifespan_eq hd, hl, ?_⟩
  rw [oneIngestion_startWatching_iff, hl]
  decide

end Cadsa.Watching
