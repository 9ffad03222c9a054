import IqrfDaemon.Transition.System
import IqrfDaemon.TaskQueue.Model
import IqrfDaemon.TaskQueue.Fifo
import IqrfDaemon.TaskQueue.Progress
import IqrfDaemon.TaskQueue.Closing
import IqrfDaemon.Cyclic.Register
import IqrfDaemon.Cyclic.Division
import IqrfDaemon.Udp.Crc
import IqrfDaemon.Udp.Checksum
import IqrfDaemon.Udp.Decode
import IqrfDaemon.Udp.Encode
import IqrfDaemon.Udp.Remainder
import IqrfDaemon.Udp.Messaging
import IqrfDaemon.Interaction.Session
import IqrfDaemon.Udp.Forwarding
import IqrfDaemon.Network.Datagrams
import IqrfDaemon.Udp.Ide
import IqrfDaemon.Udp.Link
import IqrfDaemon.Container.Multimap
import IqrfDaemon.Json.Value
import IqrfDaemon.Scheduler.CronItem
import IqrfDaemon.Scheduler.Record
import IqrfDaemon.Scheduler.Store
import IqrfDaemon.Scheduler.Index
import IqrfDaemon.Scheduler.Overflow
import IqrfDaemon.Scheduler.Agreement
import IqrfDaemon.Scheduler.Isolation
import IqrfDaemon.Scheduler.Handles
import IqrfDaemon.Scheduler.Timer
import IqrfDaemon.Scheduler.Wakeup
import IqrfDaemon.Scheduler.Pending
import IqrfDaemon.Scheduler.Lossless
import IqrfDaemon.Calendar.ServedOnce
import IqrfDaemon.Scheduler.Cron
import IqrfDaemon.Controller.Model
import IqrfDaemon.Controller.Handler
import IqrfDaemon.Controller.Finish
import IqrfDaemon.Controller.Execute
import IqrfDaemon.Controller.Modes
import IqrfDaemon.Controller.Switching
import IqrfDaemon.Controller.Running
import IqrfDaemon.Transition.Traced
import IqrfDaemon.Transition.Log
import IqrfDaemon.Container.Map
import IqrfDaemon.Dispatch.Handlers
import IqrfDaemon.Component.Descriptor
import IqrfDaemon.Component.Lifecycle
import IqrfDaemon.Component.Keeps
import IqrfDaemon.Component.Registration
import IqrfDaemon.Component.Owned
import IqrfDaemon.Component.LeftBehind
import IqrfDaemon.Component.Untouched
import IqrfDaemon.Component.Ownership
import IqrfDaemon.Text.Fields
import IqrfDaemon.Scheduler.Token
import IqrfDaemon.Scheduler.Grammar
import IqrfDaemon.Scheduler.Pattern
import IqrfDaemon.Scheduler.Formats
import IqrfDaemon.Scheduler.Nicknames
import IqrfDaemon.Scheduler.Table
import IqrfDaemon.Serializer.Stream
import IqrfDaemon.Serializer.Hex
import IqrfDaemon.Serializer.DpaTask
import IqrfDaemon.Serializer.Json
import IqrfDaemon.Serializer.Simple
import IqrfDaemon.Serializer.Options
import IqrfDaemon.Serializer.Agreement
import IqrfDaemon.Serializer.SimpleRaw
import IqrfDaemon.Serializer.Encode
import IqrfDaemon.Serializer.RoundTrip
import IqrfDaemon.Calendar.Date
import IqrfDaemon.Text.Decimal
import IqrfDaemon.Serializer.Timestamp
import IqrfDaemon.Service.Messages
import IqrfDaemon.Service.History
import IqrfDaemon.Service.Selection
import IqrfDaemon.Mqtt.Connect
import IqrfDaemon.Topic.Filter
import IqrfDaemon.Mqtt.Topic
import IqrfDaemon.Mqtt.Backoff
import IqrfDaemon.Calendar.Spaced
import IqrfDaemon.Scheduler.Firings
import IqrfDaemon.Scheduler.WatchDog
import IqrfDaemon.Scheduler.Order
import IqrfDaemon.Scheduler.Cadence
import IqrfDaemon.Scheduler.Sole
import IqrfDaemon.Scheduler.Planned
import IqrfDaemon.Calendar.Renewal
import IqrfDaemon.Controller.Petting
import IqrfDaemon.Controller.Petted
import IqrfDaemon.Bridge.Protocol
import IqrfDaemon.Bridge.Packet
import IqrfDaemon.Bridge.Reply
import IqrfDaemon.Bridge.Service
import IqrfDaemon.Bridge.Meters
import IqrfDaemon.Bridge.Confirmation
import IqrfDaemon.Bridge.Header
import IqrfDaemon.Bridge.Round
import IqrfDaemon.Bridge.Quiet
import IqrfDaemon.Bridge.Published
import IqrfDaemon.PulseMeter.Profile
import IqrfDaemon.PulseMeter.Counters
import IqrfDaemon.PulseMeter.Service
import IqrfDaemon.PulseMeter.Coverage
import IqrfDaemon.Iqrfapp.Model
import IqrfDaemon.Iqrfapp.Replies
import IqrfDaemon.Iqrfapp.Requests
import IqrfDaemon.Json.Grammar
import IqrfDaemon.Rapidjson.Reader
import IqrfDaemon.Rapidjson.Number
import IqrfDaemon.Rapidjson.Strings
import IqrfDaemon.Rapidjson.Accepts
import IqrfDaemon.Rapidjson.Errors
import IqrfDaemon.Rapidjson.Writer
import IqrfDaemon.Rapidjson.RoundTrip
import IqrfDaemon.Thermometer.Service
import IqrfDaemon.Thermometer.Schedule
import IqrfDaemon.Thermometer.Rounds
import IqrfDaemon.Thermometer.Texts
import IqrfDaemon.Service.Texts
