import Sylar.Lib.LockOrder

/-!
The locks that the functions of the program take, and in which scopes.

Of a function only its guards are kept, the calls made in their scopes, and the branches that
decide which are made. A write to a stream is the hooked `write` on a descriptor without a
context: it looks the descriptor up and calls the original. The stream of a file is written when it
is closed, and that is when its appender goes, too.
-/

namespace Sylar.Locks

open Lib.LockOrder Prog

inductive LoggerRef
  | root
  | named (i : ℕ)
  deriving DecidableEq

inductive Lock
  /-- `Config::GetMutex` -/
  | config
  | configVar (v : ℕ)
  /-- `s_mutex` of `LoadFromConfDir` -/
  | modifyTimes
  | env
  /-- `IOManager::mutex_`, of the table -/
  | fdContexts (iom : ℕ)
  | fdContext (iom fd : ℕ)
  | scheduler (s : ℕ)
  | timerManager (m : ℕ)
  | loggerManager
  | logger (l : LoggerRef)
  | appender (a : ℕ)
  | fdManager
  deriving DecidableEq

/-- No more than one lock of a rank is held at a time, and of two the one of lower rank is taken
first. -/
def rank : Lock → ℕ
  | .config => 0
  | .configVar _ => 1
  | .modifyTimes => 2
  | .env => 2
  | .fdContexts _ => 2
  | .fdContext _ _ => 3
  | .scheduler _ => 4
  | .timerManager _ => 4
  | .loggerManager => 5
  | .logger (.named _) => 6
  | .logger .root => 7
  | .appender _ => 8
  | .fdManager => 9

abbrev Code := Prog Lock

def opt (p : Code) : Code := alt skip p

def reading (l : Lock) (p : Code) : Code := locked l .shared p

def writing (l : Lock) (p : Code) : Code := locked l .exclusive p

/-! ### Descriptors -/

namespace FdManager

def get : Code := seq (opt (reading .fdManager skip)) (opt (writing .fdManager skip))

def del : Code := writing .fdManager skip

end FdManager

/-- The hooked `write` of a stream, as often as it is called, or of the tickle pipe. -/
def write : Code := loop FdManager.get

/-! ### Logging -/

namespace LogAppender

variable (a : ℕ)

def setFormatter : Code := writing (.appender a) skip

def getFormatter : Code := writing (.appender a) skip

def toYamlString : Code := writing (.appender a) skip

end LogAppender

def StdoutLogAppender.log (a : ℕ) : Code := opt (writing (.appender a) write)

namespace FileLogAppender

variable (a : ℕ)

def reopen : Code := writing (.appender a) write

def log : Code := opt (seq (opt (reopen a)) (writing (.appender a) write))

end FileLogAppender

/-- The virtual call. -/
def LogAppender.log (a : ℕ) : Code := alt (FileLogAppender.log a) (StdoutLogAppender.log a)

namespace Logger

/-- The root logger has no `root_`. -/
def logRoot : Code := opt (writing (.logger .root) (loop (pick LogAppender.log)))

def log : LoggerRef → Code
  | .root => logRoot
  | .named i =>
    opt (writing (.logger (.named i)) (alt (loop (pick LogAppender.log)) (opt logRoot)))

variable (l : LoggerRef)

/-- The formatter is handed on under the lock of each appender. -/
def setFormatter : Code :=
  writing (.logger l) (loop (pick fun a => writing (.appender a) skip))

def setFormatterStr : Code := seq write (alt write (setFormatter l))

def getFormatter : Code := writing (.logger l) skip

def toYamlString : Code := writing (.logger l) (loop (pick LogAppender.toYamlString))

def addAppender (a : ℕ) : Code :=
  writing (.logger l) (seq (LogAppender.getFormatter a) (opt (writing (.appender a) skip)))

def delAppender : Code := writing (.logger l) write

def clearAppenders : Code := writing (.logger l) write

end Logger

def anyLogger (p : LoggerRef → Code) : Code := alt (p .root) (pick fun i => p (.named i))

/-- `SYLAR_LOG_LEVEL`, to any logger. -/
def SYLAR_LOG : Code := opt (anyLogger Logger.log)

/-- `assert` comes after the message. -/
def SYLAR_ASSERT : Code := opt SYLAR_LOG

namespace LoggerManager

def getLogger : Code := writing .loggerManager skip

def toYamlString : Code :=
  writing .loggerManager (loop (anyLogger Logger.toYamlString))

end LoggerManager

/-! ### Configuration -/

namespace Env

def add : Code := writing .env skip

def has : Code := reading .env skip

def del : Code := writing .env skip

def get : Code := reading .env skip

def removeHelp : Code := writing .env skip

def addHelp : Code := seq removeHelp (writing .env skip)

def printHelp : Code := reading .env write

end Env

/-- The listener of `logs`, for one logger or all. -/
def logIniter : Code :=
  let appender (l : LoggerRef) : Code := seq (alt (pick FileLogAppender.reopen) Env.has)
    (opt (seq (opt (alt (pick LogAppender.setFormatter) write)) (pick (Logger.addAppender l))))
  let configure (l : LoggerRef) : Code :=
    seq (opt (Logger.setFormatterStr l)) (seq (Logger.clearAppenders l) (loop (appender l)))
  seq SYLAR_LOG (seq (loop (seq LoggerManager.getLogger (anyLogger configure)))
    (loop (seq LoggerManager.getLogger (anyLogger Logger.clearAppenders))))

def hookIniter : Code := SYLAR_LOG

namespace ConfigVar

variable (listeners : ℕ → Code) (v : ℕ)

/-- The handler runs after the guard is gone. -/
def toString : Code := seq (reading (.configVar v) skip) (opt SYLAR_LOG)

def getValue : Code := reading (.configVar v) skip

def setValue : Code :=
  seq (reading (.configVar v) (opt (loop (listeners v)))) (opt (writing (.configVar v) skip))

def fromString : Code := seq (opt (setValue listeners v)) (opt SYLAR_LOG)

def addListener : Code := writing (.configVar v) skip

def delListener : Code := writing (.configVar v) skip

def getListener : Code := reading (.configVar v) skip

def clearListener : Code := writing (.configVar v) skip

end ConfigVar

namespace Config

/-- The first `Lookup`: an error names the value of the variable that is in the way. -/
def Lookup : Code :=
  writing .config (opt (alt SYLAR_LOG (seq (pick ConfigVar.toString) SYLAR_LOG)))

def LookupBase : Code := reading .config skip

def Visit (cb : Code) : Code := reading .config (loop cb)

def ListAllMember : Code := loop SYLAR_LOG

def LoadFromYaml (listeners : ℕ → Code) : Code :=
  seq ListAllMember (loop (seq LookupBase (opt (pick (ConfigVar.fromString listeners)))))

def LoadFromConfDir (listeners : ℕ → Code) : Code :=
  loop (seq (writing .modifyTimes skip) (opt (seq (opt (LoadFromYaml listeners)) SYLAR_LOG)))

end Config

/-! ### Timers -/

/-- `Scheduler::tickle` writes a message, `IOManager::tickle` a byte. -/
def tickle : Code := alt SYLAR_LOG (opt (seq write SYLAR_ASSERT))

namespace Timer

variable (m : ℕ)

/-- A callback that goes may take the last pointer to a fiber with it, which says so. -/
def cancel : Code := writing (.timerManager m) (opt SYLAR_LOG)

def refresh : Code := writing (.timerManager m) skip

/-- The guard is unlocked before the front is reported. -/
def reset : Code := opt (seq (writing (.timerManager m) skip) (opt tickle))

end Timer

namespace TimerManager

variable (m : ℕ)

def addTimer : Code := seq (writing (.timerManager m) skip) (opt tickle)

def getNextTimer : Code := reading (.timerManager m) skip

def listExpiredCb : Code :=
  seq (reading (.timerManager m) skip) (opt (writing (.timerManager m) (opt SYLAR_LOG)))

def hasTimer : Code := reading (.timerManager m) skip

end TimerManager

/-! ### Scheduling -/

namespace Scheduler

variable (s : ℕ)

/-- The logger is looked up by the first call. -/
def scheduleNoLock : Code := seq (opt LoggerManager.getLogger) SYLAR_LOG

def schedule : Code := seq (writing (.scheduler s) scheduleNoLock) (opt tickle)

def scheduleAll : Code := seq (writing (.scheduler s) (loop scheduleNoLock)) (opt tickle)

/-- A thread that is being made takes no lock before its maker goes on. -/
def start : Code := writing (.scheduler s) (seq SYLAR_ASSERT (loop (opt SYLAR_LOG)))

def stopping : Code := writing (.scheduler s) skip

def scan : Code := seq (writing (.scheduler s) SYLAR_ASSERT) (opt tickle)

def switchTo : Code := seq SYLAR_ASSERT (opt (schedule s))

end Scheduler

namespace IOManager

variable (iom fd : ℕ)

/-- The scheduler of a waiter may be another. -/
def triggerEvent : Code := seq SYLAR_ASSERT (pick Scheduler.schedule)

def addEvent : Code :=
  seq (reading (.fdContexts iom) skip) (seq (opt (writing (.fdContexts iom) skip))
    (writing (.fdContext iom fd) (seq (opt (seq SYLAR_LOG SYLAR_ASSERT))
      (seq (opt SYLAR_LOG) (seq SYLAR_ASSERT (seq SYLAR_LOG SYLAR_ASSERT))))))

def delEvent : Code :=
  seq (reading (.fdContexts iom) skip) (opt (writing (.fdContext iom fd) (opt SYLAR_LOG)))

def cancelEvent : Code :=
  seq (reading (.fdContexts iom) skip)
    (opt (writing (.fdContext iom fd) (opt (alt SYLAR_LOG triggerEvent))))

def cancelAll : Code :=
  seq (reading (.fdContexts iom) skip)
    (opt (writing (.fdContext iom fd)
      (opt (alt SYLAR_LOG (seq (opt triggerEvent) (seq (opt triggerEvent) SYLAR_ASSERT))))))

def stopping : Code := seq (TimerManager.getNextTimer iom) (opt (Scheduler.stopping iom))

/-- `Scheduler::stop` with the virtual `stopping`, up to the joins. -/
def stop : Code :=
  let stopping' : Code := alt (Scheduler.stopping iom) (stopping iom)
  seq (opt (seq SYLAR_LOG stopping')) (seq SYLAR_ASSERT (seq (loop tickle)
    (seq (opt stopping') (seq (writing (.scheduler iom) skip) (loop SYLAR_LOG)))))

def dispatch : Code :=
  writing (.fdContext iom fd)
    (opt (alt SYLAR_LOG (seq (opt triggerEvent) (opt triggerEvent))))

def idle : Code :=
  seq (stopping iom) (seq (opt SYLAR_LOG) (seq (TimerManager.listExpiredCb iom)
    (seq (opt (Scheduler.scheduleAll iom)) (loop (alt write (pick (dispatch iom)))))))

end IOManager

/-! ### Hooks -/

variable (iom fd : ℕ)

/-- Every way through `do_io` is one of these turns, and no lock is held when the fiber yields. -/
def do_io : Code :=
  opt (seq FdManager.get (loop (seq (opt (TimerManager.addTimer iom))
    (seq (IOManager.addEvent iom fd) (seq (opt SYLAR_LOG) (opt (Timer.cancel iom)))))))

def connect_with_timeout : Code :=
  opt (seq FdManager.get (opt (seq (opt (TimerManager.addTimer iom))
    (seq (IOManager.addEvent iom fd) (seq (opt (Timer.cancel iom)) (opt SYLAR_LOG))))))

def sleep : Code := opt (TimerManager.addTimer iom)

/-- `socket`, `fcntl`, `ioctl` and `setsockopt` -/
def lookUp : Code := opt FdManager.get

def close : Code :=
  opt (seq FdManager.get (opt (seq (opt (IOManager.cancelAll iom fd)) FdManager.del)))

/-! ### Threads -/

inductive Call
  | log (l : LoggerRef)
  | setFormatter (l : LoggerRef) | setFormatterStr (l : LoggerRef) | getFormatter (l : LoggerRef)
  | toYamlString (l : LoggerRef) | addAppender (l : LoggerRef) (a : ℕ)
  | delAppender (l : LoggerRef) | clearAppenders (l : LoggerRef)
  | appenderSetFormatter (a : ℕ) | appenderGetFormatter (a : ℕ) | appenderToYamlString (a : ℕ)
  | reopen (a : ℕ)
  | getLogger | loggersToYamlString
  | envAdd | envHas | envDel | envGet | addHelp | removeHelp | printHelp
  | toString (v : ℕ) | fromString (v : ℕ) | getValue (v : ℕ) | setValue (v : ℕ)
  | addListener (v : ℕ) | delListener (v : ℕ) | getListener (v : ℕ) | clearListener (v : ℕ)
  | Lookup | LookupBase | Visit (cb : Code) | LoadFromYaml | LoadFromConfDir
  | timerCancel (m : ℕ) | timerRefresh (m : ℕ) | timerReset (m : ℕ)
  | addTimer (m : ℕ) | getNextTimer (m : ℕ) | listExpiredCb (m : ℕ) | hasTimer (m : ℕ)
  | schedule (s : ℕ) | scheduleAll (s : ℕ) | start (s : ℕ) | schedulerStopping (s : ℕ)
  | scan (s : ℕ) | switchTo (s : ℕ)
  | addEvent (iom fd : ℕ) | delEvent (iom fd : ℕ) | cancelEvent (iom fd : ℕ)
  | cancelAll (iom fd : ℕ) | stopping (iom : ℕ) | stop (iom : ℕ) | idle (iom : ℕ)
  | fdGet | fdDel
  | do_io (iom fd : ℕ) | connect_with_timeout (iom fd : ℕ) | sleep (iom : ℕ) | lookUp
  | close (iom fd : ℕ)

def Call.code (listeners : ℕ → Code) : Call → Code
  | .log l => Logger.log l
  | .setFormatter l => Logger.setFormatter l
  | .setFormatterStr l => Logger.setFormatterStr l
  | .getFormatter l => Logger.getFormatter l
  | .toYamlString l => Logger.toYamlString l
  | .addAppender l a => Logger.addAppender l a
  | .delAppender l => Logger.delAppender l
  | .clearAppenders l => Logger.clearAppenders l
  | .appenderSetFormatter a => LogAppender.setFormatter a
  | .appenderGetFormatter a => LogAppender.getFormatter a
  | .appenderToYamlString a => LogAppender.toYamlString a
  | .reopen a => FileLogAppender.reopen a
  | .getLogger => LoggerManager.getLogger
  | .loggersToYamlString => LoggerManager.toYamlString
  | .envAdd => Env.add
  | .envHas => Env.has
  | .envDel => Env.del
  | .envGet => Env.get
  | .addHelp => Env.addHelp
  | .removeHelp => Env.removeHelp
  | .printHelp => Env.printHelp
  | .toString v => ConfigVar.toString v
  | .fromString v => ConfigVar.fromString listeners v
  | .getValue v => ConfigVar.getValue v
  | .setValue v => ConfigVar.setValue listeners v
  | .addListener v => ConfigVar.addListener v
  | .delListener v => ConfigVar.delListener v
  | .getListener v => ConfigVar.getListener v
  | .clearListener v => ConfigVar.clearListener v
  | .Lookup => Config.Lookup
  | .LookupBase => Config.LookupBase
  | .Visit cb => Config.Visit cb
  | .LoadFromYaml => Config.LoadFromYaml listeners
  | .LoadFromConfDir => Config.LoadFromConfDir listeners
  | .timerCancel m => Timer.cancel m
  | .timerRefresh m => Timer.refresh m
  | .timerReset m => Timer.reset m
  | .addTimer m => TimerManager.addTimer m
  | .getNextTimer m => TimerManager.getNextTimer m
  | .listExpiredCb m => TimerManager.listExpiredCb m
  | .hasTimer m => TimerManager.hasTimer m
  | .schedule s => Scheduler.schedule s
  | .scheduleAll s => Scheduler.scheduleAll s
  | .start s => Scheduler.start s
  | .schedulerStopping s => Scheduler.stopping s
  | .scan s => Scheduler.scan s
  | .switchTo s => Scheduler.switchTo s
  | .addEvent iom fd => IOManager.addEvent iom fd
  | .delEvent iom fd => IOManager.delEvent iom fd
  | .cancelEvent iom fd => IOManager.cancelEvent iom fd
  | .cancelAll iom fd => IOManager.cancelAll iom fd
  | .stopping iom => IOManager.stopping iom
  | .stop iom => IOManager.stop iom
  | .idle iom => IOManager.idle iom
  | .fdGet => FdManager.get
  | .fdDel => FdManager.del
  | .do_io iom fd => Locks.do_io iom fd
  | .connect_with_timeout iom fd => Locks.connect_with_timeout iom fd
  | .sleep iom => Locks.sleep iom
  | .lookUp => Locks.lookUp
  | .close iom fd => Locks.close iom fd

/-- A thread that makes the calls one after another. -/
def calling (listeners : ℕ → Code) : List Call → Code
  | [] => skip
  | c :: cs => seq (c.code listeners) (calling listeners cs)

/-- The callback of a `Visit` stays away from the registry. -/
def Call.Ok : Call → Prop
  | .Visit cb => cb.Above rank 1
  | _ => True

/-! ### The order is kept -/

section Specs

lemma get_above : FdManager.get.Above rank 9 := by
  simp [FdManager.get, opt, reading, writing, Above, rank]

lemma write_above : write.Above rank 9 := get_above

lemma append_above (a : ℕ) : (LogAppender.log a).Above rank 8 := by
  have hwrite : write.Above rank (8 + 1) := write_above
  simp [LogAppender.log, FileLogAppender.log, FileLogAppender.reopen, StdoutLogAppender.log, opt,
    writing, Above, rank, hwrite]

lemma logRoot_above : Logger.logRoot.Above rank 7 :=
  ⟨trivial, Nat.le_refl _, append_above⟩

lemma log_above (l : LoggerRef) : (Logger.log l).Above rank (rank (.logger l)) := by
  cases l with
  | root => exact logRoot_above
  | named i =>
    exact ⟨trivial, Nat.le_refl _, fun a => (append_above a).mono (Nat.le_succ 7), trivial,
      logRoot_above⟩

lemma SYLAR_LOG_above : SYLAR_LOG.Above rank 6 :=
  ⟨trivial, (log_above .root).mono (by decide), fun i => log_above (.named i)⟩

lemma SYLAR_ASSERT_above : SYLAR_ASSERT.Above rank 6 := ⟨trivial, SYLAR_LOG_above⟩

lemma setFormatter_above (l : LoggerRef) :
    (Logger.setFormatter l).Above rank (rank (.logger l)) := by
  refine ⟨Nat.le_refl _, fun a => ⟨?_, trivial⟩⟩
  cases l <;> simp [rank]

lemma addAppender_above (l : LoggerRef) (a : ℕ) :
    (Logger.addAppender l a).Above rank (rank (.logger l)) := by
  refine ⟨Nat.le_refl _, ⟨?_, trivial⟩, trivial, ?_, trivial⟩
  all_goals cases l <;> simp [rank]

/-- What goes in the scope of a logger may be written out. -/
lemma writing_above (l : LoggerRef) :
    (writing (.logger l) write).Above rank (rank (.logger l)) := by
  refine ⟨Nat.le_refl _, write_above.mono ?_⟩
  cases l <;> simp [rank]

lemma reopen_above (a : ℕ) : (FileLogAppender.reopen a).Above rank 8 :=
  ⟨Nat.le_refl _, write_above⟩

lemma toYamlString_above (l : LoggerRef) :
    (Logger.toYamlString l).Above rank (rank (.logger l)) := by
  refine ⟨Nat.le_refl _, fun a => ⟨?_, trivial⟩⟩
  cases l <;> simp [rank]

lemma six_le (l : LoggerRef) : 6 ≤ rank (.logger l) := by cases l <;> simp [rank]

lemma anyLogger_above {p : LoggerRef → Code} {n : ℕ} (h : ∀ l, (p l).Above rank n) :
    (anyLogger p).Above rank n := ⟨h .root, fun i => h (.named i)⟩

lemma tickle_above : tickle.Above rank 6 :=
  ⟨SYLAR_LOG_above, trivial, write_above.mono (by decide), SYLAR_ASSERT_above⟩

lemma logIniter_above : logIniter.Above rank 2 := by
  have hlog : SYLAR_LOG.Above rank 2 := SYLAR_LOG_above.mono (by decide)
  have hget : LoggerManager.getLogger.Above rank 2 := ⟨by decide, trivial⟩
  have hle (l : LoggerRef) : 2 ≤ rank (.logger l) := Nat.le_trans (by decide) (six_le l)
  have hwrite : write.Above rank 2 := write_above.mono (by decide)
  have hclear (l : LoggerRef) := (writing_above l).mono (hle l)
  refine ⟨hlog, ⟨hget, anyLogger_above fun l => ?_⟩, hget, anyLogger_above hclear⟩
  refine ⟨⟨trivial, hwrite, hwrite, (setFormatter_above l).mono (hle l)⟩, hclear l, ?_⟩
  exact ⟨⟨fun a => (reopen_above a).mono (by decide), by decide, trivial⟩, trivial,
    ⟨trivial, fun a => ⟨by simp [rank], trivial⟩, hwrite⟩,
    fun a => (addAppender_above l a).mono (hle l)⟩

lemma scheduleNoLock_above : Scheduler.scheduleNoLock.Above rank 5 :=
  ⟨⟨trivial, Nat.le_refl _, trivial⟩, SYLAR_LOG_above.mono (by decide)⟩

lemma schedule_above (s : ℕ) : (Scheduler.schedule s).Above rank 4 :=
  ⟨⟨Nat.le_refl _, scheduleNoLock_above⟩, trivial, tickle_above.mono (by decide)⟩

lemma scheduleAll_above (s : ℕ) : (Scheduler.scheduleAll s).Above rank 4 :=
  ⟨⟨Nat.le_refl _, scheduleNoLock_above⟩, trivial, tickle_above.mono (by decide)⟩

lemma triggerEvent_above : IOManager.triggerEvent.Above rank 4 :=
  ⟨SYLAR_ASSERT_above.mono (by decide), schedule_above⟩

section Events

variable (iom fd : ℕ)

/-- Under the lock of a descriptor come messages and the schedulers of its waiters. -/
lemma fdContext_above {p : Code} (h : p.Above rank 4) :
    (writing (.fdContext iom fd) p).Above rank 2 := ⟨Nat.le_succ 2, h⟩

lemma fdContexts_above (m : Mode) : (locked (.fdContexts iom) m skip).Above rank 2 :=
  ⟨Nat.le_refl _, trivial⟩

lemma addEvent_above : (IOManager.addEvent iom fd).Above rank 2 := by
  have hlog : SYLAR_LOG.Above rank 4 := SYLAR_LOG_above.mono (by decide)
  have hassert : SYLAR_ASSERT.Above rank 4 := SYLAR_ASSERT_above.mono (by decide)
  exact ⟨fdContexts_above iom .shared, ⟨trivial, fdContexts_above iom .exclusive⟩,
    fdContext_above iom fd ⟨⟨trivial, hlog, hassert⟩, ⟨trivial, hlog⟩, hassert, hlog, hassert⟩⟩

lemma delEvent_above : (IOManager.delEvent iom fd).Above rank 2 :=
  ⟨fdContexts_above iom .shared, trivial,
    fdContext_above iom fd ⟨trivial, SYLAR_LOG_above.mono (by decide)⟩⟩

lemma cancelEvent_above : (IOManager.cancelEvent iom fd).Above rank 2 :=
  ⟨fdContexts_above iom .shared, trivial,
    fdContext_above iom fd ⟨trivial, SYLAR_LOG_above.mono (by decide), triggerEvent_above⟩⟩

lemma cancelAll_above : (IOManager.cancelAll iom fd).Above rank 2 := by
  have htrigger : (opt IOManager.triggerEvent).Above rank 4 := ⟨trivial, triggerEvent_above⟩
  exact ⟨fdContexts_above iom .shared, trivial, fdContext_above iom fd
    ⟨trivial, SYLAR_LOG_above.mono (by decide), htrigger, htrigger,
      SYLAR_ASSERT_above.mono (by decide)⟩⟩

lemma dispatch_above : (IOManager.dispatch iom fd).Above rank 2 := by
  have htrigger : (opt IOManager.triggerEvent).Above rank 4 := ⟨trivial, triggerEvent_above⟩
  exact fdContext_above iom fd ⟨trivial, SYLAR_LOG_above.mono (by decide), htrigger, htrigger⟩

lemma addTimer_above : (TimerManager.addTimer iom).Above rank 4 :=
  ⟨⟨Nat.le_refl _, trivial⟩, trivial, tickle_above.mono (by decide)⟩

lemma cancel_above : (Timer.cancel iom).Above rank 4 :=
  ⟨Nat.le_refl _, trivial, SYLAR_LOG_above.mono (Nat.le_succ 5)⟩

lemma listExpiredCb_above : (TimerManager.listExpiredCb iom).Above rank 4 :=
  ⟨⟨Nat.le_refl _, trivial⟩, trivial, cancel_above iom⟩

lemma stopping_above : (IOManager.stopping iom).Above rank 4 :=
  ⟨⟨Nat.le_refl _, trivial⟩, trivial, Nat.le_refl _, trivial⟩

lemma stop_above : (IOManager.stop iom).Above rank 4 := by
  have hlog : SYLAR_LOG.Above rank 4 := SYLAR_LOG_above.mono (by decide)
  have hscheduler : (Scheduler.stopping iom).Above rank 4 := ⟨Nat.le_refl _, trivial⟩
  exact ⟨⟨trivial, hlog, hscheduler, stopping_above iom⟩, SYLAR_ASSERT_above.mono (by decide),
    tickle_above.mono (by decide), ⟨trivial, hscheduler, stopping_above iom⟩,
    ⟨Nat.le_refl _, trivial⟩, hlog⟩

lemma idle_above : (IOManager.idle iom).Above rank 2 :=
  ⟨(stopping_above iom).mono (by decide), ⟨trivial, SYLAR_LOG_above.mono (by decide)⟩,
    (listExpiredCb_above iom).mono (by decide), ⟨trivial, (scheduleAll_above iom).mono (by decide)⟩,
    write_above.mono (by decide), dispatch_above iom⟩

lemma do_io_above : (do_io iom fd).Above rank 2 :=
  ⟨trivial, get_above.mono (by decide), ⟨trivial, (addTimer_above iom).mono (by decide)⟩,
    addEvent_above iom fd, ⟨trivial, SYLAR_LOG_above.mono (by decide)⟩,
    trivial, (cancel_above iom).mono (by decide)⟩

lemma connect_with_timeout_above : (connect_with_timeout iom fd).Above rank 2 :=
  ⟨trivial, get_above.mono (by decide), trivial,
    ⟨trivial, (addTimer_above iom).mono (by decide)⟩, addEvent_above iom fd,
    ⟨trivial, (cancel_above iom).mono (by decide)⟩, trivial, SYLAR_LOG_above.mono (by decide)⟩

lemma close_above : (close iom fd).Above rank 2 :=
  ⟨trivial, get_above.mono (by decide), trivial, ⟨trivial, cancelAll_above iom fd⟩,
    by decide, trivial⟩

end Events

section Configuration

variable {listeners : ℕ → Code} (h : ∀ v, (listeners v).Above rank 2) (v : ℕ)

include h

lemma setValue_above : (ConfigVar.setValue listeners v).Above rank 1 :=
  ⟨⟨Nat.le_refl _, trivial, h v⟩, trivial, Nat.le_refl _, trivial⟩

lemma fromString_above : (ConfigVar.fromString listeners v).Above rank 1 :=
  ⟨⟨trivial, setValue_above h v⟩, trivial, SYLAR_LOG_above.mono (by decide)⟩

lemma LoadFromYaml_above : (Config.LoadFromYaml listeners).Above rank 0 :=
  ⟨SYLAR_LOG_above.mono (by decide), ⟨Nat.le_refl _, trivial⟩, trivial,
    fun v => (fromString_above h v).mono (by decide)⟩

/-- **Every call keeps the order.** -/
lemma code_above {c : Call} (hc : c.Ok) : (c.code listeners).Above rank 0 := by
  have hlog : SYLAR_LOG.Above rank 1 := SYLAR_LOG_above.mono (by decide)
  cases c with
  | log l => exact (log_above l).mono (Nat.zero_le _)
  | setFormatter l => exact (setFormatter_above l).mono (Nat.zero_le _)
  | setFormatterStr l =>
    exact ⟨write_above.mono (by decide), write_above.mono (by decide),
      (setFormatter_above l).mono (Nat.zero_le _)⟩
  | toYamlString l => exact (toYamlString_above l).mono (Nat.zero_le _)
  | addAppender l a => exact (addAppender_above l a).mono (Nat.zero_le _)
  | loggersToYamlString =>
    exact ⟨Nat.zero_le _, anyLogger_above fun l => (toYamlString_above l).mono (six_le l)⟩
  | printHelp => exact ⟨Nat.zero_le _, write_above.mono (by decide)⟩
  | toString v => exact ⟨⟨Nat.zero_le _, trivial⟩, trivial, hlog.mono (by decide)⟩
  | fromString v => exact (fromString_above h v).mono (by decide)
  | setValue v => exact (setValue_above h v).mono (by decide)
  | Lookup =>
    exact ⟨Nat.le_refl _, trivial, hlog,
      fun v => ⟨⟨Nat.le_refl _, trivial⟩, trivial, hlog⟩, hlog⟩
  | Visit cb => exact ⟨Nat.le_refl _, hc⟩
  | LoadFromYaml => exact LoadFromYaml_above h
  | LoadFromConfDir =>
    exact ⟨⟨Nat.zero_le _, trivial⟩, trivial, ⟨trivial, LoadFromYaml_above h⟩,
      hlog.mono (by decide)⟩
  | timerCancel m => exact (cancel_above m).mono (by decide)
  | timerReset m =>
    exact ⟨trivial, ⟨Nat.zero_le _, trivial⟩, trivial, tickle_above.mono (by decide)⟩
  | addTimer m => exact (addTimer_above m).mono (by decide)
  | listExpiredCb m => exact (listExpiredCb_above m).mono (by decide)
  | schedule s => exact (schedule_above s).mono (by decide)
  | scheduleAll s => exact (scheduleAll_above s).mono (by decide)
  | start s =>
    exact ⟨Nat.zero_le _, SYLAR_ASSERT_above.mono (Nat.le_succ 5), trivial,
      SYLAR_LOG_above.mono (Nat.le_succ 5)⟩
  | scan s =>
    exact ⟨⟨Nat.zero_le _, SYLAR_ASSERT_above.mono (Nat.le_succ 5)⟩, trivial,
      tickle_above.mono (by decide)⟩
  | switchTo s =>
    exact ⟨SYLAR_ASSERT_above.mono (by decide), trivial, (schedule_above s).mono (by decide)⟩
  | addEvent iom fd => exact (addEvent_above iom fd).mono (by decide)
  | delEvent iom fd => exact (delEvent_above iom fd).mono (by decide)
  | cancelEvent iom fd => exact (cancelEvent_above iom fd).mono (by decide)
  | cancelAll iom fd => exact (cancelAll_above iom fd).mono (by decide)
  | stopping iom => exact (stopping_above iom).mono (by decide)
  | stop iom => exact (stop_above iom).mono (by decide)
  | idle iom => exact (idle_above iom).mono (by decide)
  | fdGet => exact get_above.mono (by decide)
  | do_io iom fd => exact (do_io_above iom fd).mono (by decide)
  | connect_with_timeout iom fd => exact (connect_with_timeout_above iom fd).mono (by decide)
  | sleep iom => exact ⟨trivial, (addTimer_above iom).mono (by decide)⟩
  | lookUp => exact ⟨trivial, get_above.mono (by decide)⟩
  | close iom fd => exact (close_above iom fd).mono (by decide)
  | delAppender l | clearAppenders l => exact (writing_above l).mono (Nat.zero_le _)
  | reopen a => exact (reopen_above a).mono (Nat.zero_le _)
  | envAdd | envHas | envDel | envGet | removeHelp | getLogger | LookupBase | fdDel
  | getFormatter | appenderSetFormatter | appenderGetFormatter | appenderToYamlString | getValue
  | addListener | delListener | getListener | clearListener | timerRefresh | getNextTimer
  | hasTimer | schedulerStopping =>
    exact ⟨Nat.zero_le _, trivial⟩
  | addHelp => exact ⟨⟨Nat.zero_le _, trivial⟩, Nat.zero_le _, trivial⟩

lemma calling_above {cs : List Call} (hcs : ∀ c ∈ cs, c.Ok) :
    (calling listeners cs).Above rank 0 := by
  induction cs with
  | nil => trivial
  | cons c cs ih =>
    exact ⟨code_above h (hcs c List.mem_cons_self),
      ih fun c hc => hcs c (List.mem_cons_of_mem _ hc)⟩

end Configuration

lemma rank_lt (l : Lock) : rank l < 10 := by
  unfold rank
  split <;> omega

end Specs

/-- **The locks never close a circle.** For any number of threads, each making any calls, where the
listeners take no lock of the configuration and the callbacks of `Visit` not that of its registry:
no thread ever waits for itself, and whoever waits waits in the end for a thread that can go on. -/
theorem no_lock_cycle {T : Type} [DecidableEq T] {listeners : ℕ → Code}
    (hl : ∀ v, (listeners v).Above rank 2) {calls : T → List Call}
    (hcalls : ∀ t, ∀ c ∈ calls t, c.Ok) {c : T → List (Item Lock)}
    (hc : Relation.ReflTransGen Step (start fun t => calling listeners (calls t)) c) (t : T) :
    ¬Relation.TransGen (WaitsFor c) t t ∧
      (c t ≠ [] → ∃ t', Relation.ReflTransGen (WaitsFor c) t t' ∧ CanMove c t') :=
  no_deadlock (fun t => calling_above hl (hcalls t)) rank_lt hc t

/-- The listeners of the program, with one thread that sets `logs` and one that logs. -/
theorem no_lock_cycle_logs :
    ∃ c : Bool → List (Item Lock),
      Relation.ReflTransGen Step (start fun t => calling
        (fun v => if v = 0 then logIniter else hookIniter)
          (if t then [.setValue 0] else [.log .root])) c ∧
      c true ≠ [] ∧
      (c true ≠ [] → ∃ t', Relation.ReflTransGen (WaitsFor c) true t' ∧ CanMove c t') := by
  refine ⟨_, .single ⟨true, _, .seq _ _ _⟩, List.cons_ne_nil _ _, ?_⟩
  refine (no_lock_cycle (fun v => ?_) (fun t c hc => ?_) (.single ⟨true, _, .seq _ _ _⟩) true).2
  · by_cases hv : v = 0
    · rw [if_pos hv]
      exact logIniter_above
    · rw [if_neg hv]
      exact SYLAR_LOG_above.mono (by decide)
  · cases t <;> obtain rfl := List.mem_singleton.1 hc <;> trivial

end Sylar.Locks
