import RobotTaskManager.Lib.Run
import RobotTaskManager.Lib.PyValue
import RobotTaskManager.Lib.PyEq
import RobotTaskManager.Lib.JsJson
import RobotTaskManager.Engine.Tree
import RobotTaskManager.Engine.Config
import RobotTaskManager.Engine.Parallel
import RobotTaskManager.Engine.Soundness
import RobotTaskManager.Engine.Termination
import RobotTaskManager.Engine.Cancellation
import RobotTaskManager.Engine.Placement
import RobotTaskManager.Engine.Reentry
import RobotTaskManager.Engine.Paths
import RobotTaskManager.Lib.Acyclic
import RobotTaskManager.Engine.Containment
import RobotTaskManager.Engine.Graph
import RobotTaskManager.Lib.Brackets
import RobotTaskManager.Engine.Observer
import RobotTaskManager.Engine.IdlePath
import RobotTaskManager.Engine.Propagation
import RobotTaskManager.Executor.Node
import RobotTaskManager.Executor.Step
import RobotTaskManager.Executor.Admission
import RobotTaskManager.Executor.Cancel
import RobotTaskManager.Executor.Completion
import RobotTaskManager.Executor.StatusPath
import RobotTaskManager.Executor.Coherent
import RobotTaskManager.Ros.ActionState
import RobotTaskManager.Ros.Orphan
import RobotTaskManager.Supervisor.Node
import RobotTaskManager.Supervisor.InFlight
import RobotTaskManager.Supervisor.Bringup
import RobotTaskManager.SkillLibrary.Angles
import RobotTaskManager.SkillLibrary.DriveGoals
import RobotTaskManager.SkillLibrary.DriveToPose
import RobotTaskManager.SkillLibrary.CmdVel
import RobotTaskManager.SkillLibrary.Phases
import RobotTaskManager.SkillLibrary.Limits
import RobotTaskManager.SkillLibrary.Arrival
import RobotTaskManager.Rcs.Bridge
import RobotTaskManager.Rcs.Attribution
import RobotTaskManager.Rcs.Cancel
import RobotTaskManager.TaskRepository.Node
import RobotTaskManager.TaskRepository.Atomic
import RobotTaskManager.Spec.Schema
import RobotTaskManager.Spec.Survival
import RobotTaskManager.Spec.Made
import RobotTaskManager.Spec.Calls
import RobotTaskManager.Ros.Protocol
import RobotTaskManager.WebGui.Chart
import RobotTaskManager.WebGui.Highlight
import RobotTaskManager.WebGui.SpecEditor
import RobotTaskManager.WebGui.Authoring
import RobotTaskManager.WebGui.LiveTopics
import RobotTaskManager.Lib.Attempts
import RobotTaskManager.Engine.Retry
import RobotTaskManager.Lib.Approach
import RobotTaskManager.Emulator.VirtualRobot
import RobotTaskManager.Emulator.Motion
import RobotTaskManager.Emulator.Reset
import RobotTaskManager.Emulator.Refusals
import RobotTaskManager.Lib.PurePath
import RobotTaskManager.TaskRepository.Paths
import RobotTaskManager.Lib.Uri
import RobotTaskManager.WebGui.LoadSpec
import RobotTaskManager.WebGui.Layout
import RobotTaskManager.WebGui.Placement
import RobotTaskManager.Lib.PyText
import RobotTaskManager.Lib.PyJson
import RobotTaskManager.Lib.JsonGrammar
import RobotTaskManager.Lib.PyDumps
import RobotTaskManager.Lib.PyRoundTrip
import RobotTaskManager.Lib.PyConvert
import RobotTaskManager.Rcs.Http
import RobotTaskManager.Rcs.Orders
import RobotTaskManager.Rcs.Userdata
import RobotTaskManager.Lib.LeadsTo
import RobotTaskManager.SkillLibrary.MoveMotor
import RobotTaskManager.SkillLibrary.MotorGoals
import RobotTaskManager.SkillLibrary.MotorSystem
import RobotTaskManager.SkillLibrary.MotorTruth
import RobotTaskManager.Supervisor.Recovery
import RobotTaskManager.Examples.VisitPoints
import RobotTaskManager.Executor.Subjob
import RobotTaskManager.WebGui.SaveSpec
import RobotTaskManager.WebGui.StoredSpecs
