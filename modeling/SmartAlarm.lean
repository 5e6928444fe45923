import SmartAlarm.Lib.Machine
import SmartAlarm.Lib.Decimal
import SmartAlarm.Lib.Terminated
import SmartAlarm.Lib.ClockFace
import SmartAlarm.Lib.Blocks
import SmartAlarm.Lib.Matcher
import SmartAlarm.Lib.Sampling
import SmartAlarm.Lib.Reversals
import SmartAlarm.Lib.Linked
import SmartAlarm.Lib.DeltaList
import SmartAlarm.Lib.PriorityQueue
import SmartAlarm.Lib.Terminal
import SmartAlarm.Rtos.List
import SmartAlarm.Rtos.Kernel
import SmartAlarm.Rtos.Scheduler
import SmartAlarm.Rtos.Calls
import SmartAlarm.Rtos.Queues
import SmartAlarm.Rtos.Delays
import SmartAlarm.Rtos.Refinement
import SmartAlarm.Rtos.Soundness
import SmartAlarm.Rtos.Timer
import SmartAlarm.Rtos.Countdown
import SmartAlarm.Rtos.TimerList
import SmartAlarm.Rtos.TimerRefinement
import SmartAlarm.Rtos.Memory
import SmartAlarm.Rtos.MemoryPool
import SmartAlarm.Firmware.Libc
import SmartAlarm.Firmware.AlarmSet
import SmartAlarm.Firmware.TimeDisplay
import SmartAlarm.Firmware.LedSequence
import SmartAlarm.Firmware.SongPlayer
import SmartAlarm.Firmware.Speaker
import SmartAlarm.Firmware.Motordriver
import SmartAlarm.Firmware.Ultrasonic
import SmartAlarm.Firmware.Disarm
import SmartAlarm.Firmware.Main
import SmartAlarm.Firmware.CheckSuffix
import SmartAlarm.Firmware.RobotMove
import SmartAlarm.Firmware.System
import SmartAlarm.Firmware.Device
import SmartAlarm.Firmware.Screen
import SmartAlarm.Firmware.Display
import SmartAlarm.Properties.AlarmEditor
import SmartAlarm.Properties.ClockSetting
import SmartAlarm.Properties.Playback
import SmartAlarm.Properties.Songs
import SmartAlarm.Properties.LightGame
import SmartAlarm.Properties.LightShow
import SmartAlarm.Properties.Disarming
import SmartAlarm.Properties.AlarmPasses
import SmartAlarm.Properties.AlarmEpisodes
import SmartAlarm.Properties.LaunchCondition
import SmartAlarm.Properties.Suffixes
import SmartAlarm.Properties.Ranging
import SmartAlarm.Properties.Triggering
import SmartAlarm.Properties.MotorStates
import SmartAlarm.Properties.Standstill
import SmartAlarm.Properties.WholeDevice
import SmartAlarm.Properties.RobotTimer
import SmartAlarm.Properties.RobotStops
import SmartAlarm.Properties.RobotReversal
import SmartAlarm.Properties.Motion
import SmartAlarm.Properties.Composition
import SmartAlarm.Properties.Lamps
import SmartAlarm.Properties.Printing
import SmartAlarm.Properties.Shown
import SmartAlarm.Properties.Threads
import SmartAlarm.Properties.Timers
import SmartAlarm.Properties.Memory
import SmartAlarm.Properties.Turns
import SmartAlarm.Properties.Sleeping
import SmartAlarm.Properties.Semaphores
