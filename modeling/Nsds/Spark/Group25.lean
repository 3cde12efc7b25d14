import Nsds.Lib.MicroBatch
import Nsds.Lib.Windows

/-!
# `spark/NSDS_spark_eval`, `SparkGroup25.java`

The three queries. All columns of the files may be null. The rate source numbers its rows
from 0, and times are in microseconds.
-/

namespace Nsds.Group25

open MachineInt MicroBatch Pairs Sql Windows

structure Prof (S : Type) where
  prof_name : Option S
  course_name : Option S
deriving DecidableEq, Repr

structure Course (S : Type) where
  course_name : Option S
  course_hours : Option Int
  course_students : Option Int
deriving DecidableEq, Repr

structure Video (S : Type) where
  video_id : Option Int
  video_duration : Option Int
  course_name : Option S
deriving DecidableEq, Repr

/-- A row of the rate source. -/
structure Visualization where
  timestamp : Int
  value : Int
deriving DecidableEq, Repr

def numCourses : Int := 3000

/-- `1 minutes`. -/
def windowDuration : Nat := 60000000

/-- `10 seconds`. -/
def slideDuration : Nat := 10000000

/-- `withColumn("value", col("value").mod(numCourses))`. -/
def Visualization.ofRate (row : Visualization) : Visualization :=
  { row with value := row.value.tmod numCourses }

variable {S : Type} [DecidableEq S]

/-! ## Q1 -/

def q1 (profs : List (Prof S)) (courses : List (Course S)) : List (GroupSum S) :=
  groupBySum (fun (prof, _) => prof.prof_name) (fun (_, course) => course.course_hours)
    (innerJoin (fun prof course => equalTo prof.course_name course.course_name) profs courses)

/-! ## Q2 -/

def sameVideo (visualization : Visualization) (video : Video S) : Option Bool :=
  equalTo video.video_id (some visualization.value)

/-- The visualizations with their videos. -/
def watched (videos : List (Video S)) (rate : List Visualization) :
    List (Visualization × Video S) :=
  innerJoin sameVideo (rate.map Visualization.ofRate) videos

/-- Under the window and the course of each row, its duration. -/
def q2Rows (videos : List (Video S)) (rate : List Visualization) :
    List ((Int × Option S) × Option Int) :=
  windowed windowDuration slideDuration (fun row => row.1.timestamp)
    (fun row => row.2.course_name) (fun row => row.2.video_duration) (watched videos rate)

def q2 (videos : List (Video S)) (batches : List (List Visualization)) :
    List (List ((Int × Option S) × Option Int)) :=
  run sum (fun _ => none) (batches.map (q2Rows videos))

/-! ## Q3 -/

def videosAndCourses (videos : List (Video S)) (courses : List (Course S)) :
    List (Video S × Course S) :=
  innerJoin (fun video course => equalTo video.course_name course.course_name) videos courses

/-- The key of Q3. -/
structure Group (S : Type) where
  video_id : Option Int
  course_name : Option S
  course_students : Option Int
deriving DecidableEq, Repr

structure Ratio (S ρ : Type) where
  course_name : Option S
  video_id : Option Int
  ratio : ρ
deriving DecidableEq, Repr

def groupOf (video : Video S) (course : Course S) : Group S where
  video_id := video.video_id
  course_name := video.course_name
  course_students := course.course_students

def q3Rows (videos : List (Video S)) (courses : List (Course S)) (rate : List Visualization) :
    List (Group S × Unit) :=
  (innerJoin (fun visualization (row : Video S × Course S) => sameVideo visualization row.1)
    (rate.map Visualization.ofRate) (videosAndCourses videos courses)).map
    fun (_, video, course) => (groupOf video course, ())

/-- The columns that are selected. `divide` is the division of doubles. -/
def ratioOf {ρ : Type} (divide : Nat → Option Int → ρ) (row : Group S × Nat) : Ratio S ρ where
  course_name := row.1.course_name
  video_id := row.1.video_id
  ratio := divide row.2 row.1.course_students

def q3 {ρ : Type} (divide : Nat → Option Int → ρ) (videos : List (Video S))
    (courses : List (Course S)) (batches : List (List Visualization)) : List (List (Ratio S ρ)) :=
  (run (count Unit) (fun _ => none) (batches.map (q3Rows videos courses))).map
    (List.map (ratioOf divide))

/-! ## What Q1 shows -/

def sameCourse (prof : Prof S) (course : Course S) : Option Bool :=
  equalTo prof.course_name course.course_name

theorem mem_q1 {profs : List (Prof S)} {courses : List (Course S)} {row : GroupSum S} :
    row ∈ q1 profs courses ↔
      (∃ prof ∈ profs, prof.prof_name = row.key ∧
        ∃ course ∈ courses, sameCourse prof course = some true) ∧
      row.sum = sum ((profs.filter fun prof => prof.prof_name = row.key).flatMap fun prof =>
        (filter (sameCourse prof) courses).map Course.course_hours) := by
  unfold q1
  rw [mem_groupBySum, filter_innerJoin _ profs courses fun prof => prof.prof_name = row.key]
  unfold innerJoin
  simp only [List.map_flatMap, List.map_map]
  refine and_congr ?_ Iff.rfl
  simp only [List.mem_flatMap, Function.comp_def, List.mem_map, filter, List.mem_filter,
    decide_eq_true_eq]
  constructor
  · rintro ⟨prof, hprof, course, ⟨hcourse, hsame⟩, hname⟩
    exact ⟨prof, hprof, hname, course, hcourse, hsame⟩
  · rintro ⟨prof, hprof, hname, course, hcourse, hsame⟩
    exact ⟨prof, hprof, course, ⟨hcourse, hsame⟩, hname⟩

theorem q1_total (profs : List (Prof S)) (courses : List (Course S)) :
    wrap 64 ((q1 profs courses).filterMap GroupSum.sum).sum =
      wrap 64 (courses.map fun course =>
        ((filter (fun prof => sameCourse prof course) profs).length : Int) *
          course.course_hours.getD 0).sum := by
  unfold q1
  rw [wrap_sum_groupBySum, sum_filterMap]
  exact congrArg (wrap 64)
    (sum_map_innerJoin _ profs courses fun course => course.course_hours.getD 0)

/-! ## What Q2 shows -/

variable {videos : List (Video S)} {courses : List (Course S)}

/-- The durations of what was watched in the minute from `start`, of videos of the course. -/
def inMinute (videos : List (Video S)) (rate : List Visualization) (start : Int)
    (course : Option S) : List (Option Int) :=
  ((watched videos rate).filter fun row =>
    start ≤ row.1.timestamp ∧ row.1.timestamp < start + windowDuration ∧
      row.2.course_name = course).map fun row => row.2.video_duration

omit [DecidableEq S] in
theorem q2Rows_flatten (videos : List (Video S)) (batches : List (List Visualization)) :
    (batches.map (q2Rows videos)).flatten = q2Rows videos batches.flatten := by
  unfold q2Rows watched
  rw [List.map_flatten, innerJoin_flatten, windowed_flatten, List.map_map, List.map_map]
  rfl

/-- However the stream is cut into batches, the most recent row of a window and a course shows
the total duration of what was watched so far of that course in that minute. There is a window
every ten seconds. -/
theorem q2_latest (videos : List (Video S)) (batches : List (List Visualization)) (start : Int)
    (course : Option S) :
    latest (q2 videos batches) (start, course) =
      if (slideDuration : Int) ∣ start ∧ inMinute videos batches.flatten start course ≠ []
      then some (Sql.sum (inMinute videos batches.flatten start course)) else none := by
  have hvalues : valuesOf (q2Rows videos batches.flatten) (start, course) =
      if (slideDuration : Int) ∣ start then inMinute videos batches.flatten start course else [] :=
    valuesOf_windowed (by decide) ..
  unfold q2
  rw [latest_eq_results, q2Rows_flatten, results_eq, hvalues, sum_of]
  by_cases hdvd : (slideDuration : Int) ∣ start
  · simp [hdvd]
  · simp [hdvd]

/-! ## What Q3 shows -/

/-- Videos have their own ids, and courses their own names. -/
structure Catalogue (videos : List (Video S)) (courses : List (Course S)) : Prop where
  videos : (videos.map Video.video_id).Nodup
  courses : (courses.map Course.course_name).Nodup

/-- How often the video was watched. -/
def visualizations (rate : List Visualization) (id : Int) : Nat :=
  rate.countP fun row => row.value.tmod numCourses = id

/-- A video of a course. -/
structure Taught (videos : List (Video S)) (courses : List (Course S)) (video : Video S)
    (course : Course S) (id : Int) : Prop where
  video_mem : video ∈ videos
  course_mem : course ∈ courses
  id_eq : video.video_id = some id
  name_eq : ∃ name, video.course_name = some name ∧ course.course_name = some name

variable {video : Video S} {course : Course S} {id : Int}

theorem filter_videosAndCourses (h : Catalogue videos courses)
    (ht : Taught videos courses video course id) :
    (videosAndCourses videos courses).filter (fun row => row.1.video_id = some id) =
      [(video, course)] := by
  have hnodup : (videosAndCourses videos courses).Nodup :=
    nodup_innerJoin _ h.videos.of_map h.courses.of_map
  obtain ⟨name, hvideo, hcourse⟩ := ht.name_eq
  rw [← List.perm_singleton, List.perm_ext_iff_of_nodup (hnodup.filter _) (List.nodup_singleton _)]
  rintro ⟨video', course'⟩
  simp only [videosAndCourses, List.mem_filter, mem_innerJoin, decide_eq_true_eq, equalTo_iff,
    List.mem_singleton, Prod.mk.injEq]
  constructor
  · rintro ⟨⟨hvideo', hcourse', name', hname', hname⟩, hid'⟩
    obtain rfl := List.inj_on_of_nodup_map h.videos hvideo' ht.video_mem (hid'.trans ht.id_eq.symm)
    rw [hvideo] at hname'
    refine ⟨rfl, List.inj_on_of_nodup_map h.courses hcourse' ht.course_mem ?_⟩
    rw [hname, hcourse, hname']
  · rintro ⟨rfl, rfl⟩
    exact ⟨⟨ht.video_mem, ht.course_mem, ⟨name, hvideo, hcourse⟩⟩, ht.id_eq⟩

theorem q3Rows_flatten (videos : List (Video S)) (courses : List (Course S))
    (batches : List (List Visualization)) :
    (batches.map (q3Rows videos courses)).flatten = q3Rows videos courses batches.flatten := by
  unfold q3Rows
  rw [List.map_flatten, innerJoin_flatten, List.map_flatten, List.map_map, List.map_map]
  rfl

theorem q3Rows_cons (row : Visualization) (rate : List Visualization) :
    q3Rows videos courses (row :: rate) =
      ((videosAndCourses videos courses).filter fun taught =>
        taught.1.video_id = some (row.value.tmod numCourses)).map
        (fun taught => (groupOf taught.1 taught.2, ())) ++ q3Rows videos courses rate := by
  have hsame (taught : Video S × Course S) : sameVideo row.ofRate taught.1 = some true ↔
      taught.1.video_id = some (row.value.tmod numCourses) := equalTo_eq_true_iff
  unfold q3Rows innerJoin Sql.filter
  simp only [List.map_cons, List.flatMap_cons, hsame, List.map_append, List.map_map]
  rfl

theorem video_id_of_mem {rate : List Visualization} {group : Group S}
    (h : group ∈ (q3Rows videos courses rate).map Prod.fst) :
    ∃ taught ∈ videosAndCourses videos courses, groupOf taught.1 taught.2 = group := by
  induction rate with
  | nil => simp [q3Rows, innerJoin] at h
  | cons row rate ih =>
    rw [q3Rows_cons, List.map_append, List.mem_append, List.map_map, List.mem_map] at h
    rcases h with ⟨taught, htaught, hgroup⟩ | h
    · exact ⟨taught, (List.mem_filter.mp htaught).1, hgroup⟩
    · exact ih h

theorem valuesOf_q3Rows (h : Catalogue videos courses)
    (ht : Taught videos courses video course id) (rate : List Visualization) :
    valuesOf (q3Rows videos courses rate) (groupOf video course) =
      List.replicate (visualizations rate id) () := by
  induction rate with
  | nil => rfl
  | cons row rate ih =>
    rw [q3Rows_cons, valuesOf_append, ih]
    unfold visualizations
    rw [List.countP_cons]
    by_cases hid : row.value.tmod numCourses = id
    · subst hid
      rw [filter_videosAndCourses h ht]
      simp [valuesOf, List.replicate_succ]
    · have hnone : valuesOf (((videosAndCourses videos courses).filter fun taught =>
          taught.1.video_id = some (row.value.tmod numCourses)).map
          fun taught => (groupOf taught.1 taught.2, ())) (groupOf video course) = [] := by
        rw [valuesOf_eq_nil_iff, List.map_map, List.mem_map]
        rintro ⟨taught, htaught, hgroup⟩
        have hvalue := of_decide_eq_true (List.mem_filter.mp htaught).2
        have hsame : taught.1.video_id = video.video_id := congrArg Group.video_id hgroup
        rw [hvalue, ht.id_eq, Option.some.injEq] at hsame
        exact hid hsame
      rw [hnone]
      simp [hid]

/-- However the stream is cut into batches, the most recent row about a video shows how often it
was watched so far, divided by the students of its course. -/
theorem q3_latest {ρ : Type} (divide : Nat → Option Int → ρ) (h : Catalogue videos courses)
    (ht : Taught videos courses video course id) (batches : List (List Visualization)) :
    (q3 divide videos courses batches).flatten.reverse.find? (fun row => row.video_id = some id) =
      if visualizations batches.flatten id = 0 then none
      else some {
        course_name := video.course_name
        video_id := some id
        ratio := divide (visualizations batches.flatten id) course.course_students } := by
  have hlatest := @latest_eq_results _ _ _ _ (count Unit) (batches.map (q3Rows videos courses))
    (groupOf video course)
  rw [q3Rows_flatten, results_eq, valuesOf_q3Rows h ht, count_of, List.length_replicate] at hlatest
  simp only [List.replicate_eq_nil_iff] at hlatest
  have hkey : ∀ row ∈ (run (count Unit) (fun _ => none)
      (batches.map (q3Rows videos courses))).flatten,
      ((fun ratio => decide (ratio.video_id = some id)) ∘ ratioOf divide) row =
        decide (row.1 = groupOf video course) := by
    intro row hrow
    have hgroup := mem_run hrow
    rw [q3Rows_flatten] at hgroup
    obtain ⟨taught, htaught, hgroup⟩ := video_id_of_mem hgroup
    rw [← hgroup, Function.comp_apply, decide_eq_decide]
    simp only [ratioOf, ← hgroup]
    constructor
    · intro hid
      have hmem : taught ∈ (videosAndCourses videos courses).filter
          fun row => row.1.video_id = some id := List.mem_filter.mpr ⟨htaught, decide_eq_true hid⟩
      rw [filter_videosAndCourses h ht, List.mem_singleton] at hmem
      rw [hmem]
    · intro heq
      exact (congrArg Group.video_id heq).trans ht.id_eq
  unfold q3
  rw [← List.map_flatten, ← List.map_reverse, List.find?_map, find_latest hkey, hlatest]
  split
  · rfl
  · simp [ratioOf, groupOf, ht.id_eq]

theorem q3_latest_three :
    (q3 (fun n students => (n, students)) [⟨some 850, some 5, some "course0"⟩]
      [⟨some "course0", some 48, some 97⟩] [[⟨0, 850⟩, ⟨1, 851⟩], [⟨2, 3850⟩]]).flatten.reverse.find?
        (fun row => row.video_id = some 850) =
      some { course_name := some "course0", video_id := some 850, ratio := (2, some 97) } :=
  (q3_latest (fun n students => (n, students)) ⟨by decide, by decide⟩
    ⟨List.mem_singleton_self _, List.mem_singleton_self _, rfl, "course0", rfl, rfl⟩
    [[⟨0, 850⟩, ⟨1, 851⟩], [⟨2, 3850⟩]]).trans (by decide)

end Nsds.Group25
