import PostfixEdm.Pdu.Bounds
import PostfixEdm.Conn.Stream
import PostfixEdm.Server.Reports
import PostfixEdm.System.Agreement
import PostfixEdm.Client.PoolCount
import PostfixEdm.Client.PushCount
import PostfixEdm.Client.LockOrder
import PostfixEdm.Client.StartCommand
import PostfixEdm.Client.Masters
import PostfixEdm.Server.EventLoop
import PostfixEdm.Server.Admins
import PostfixEdm.Client.EventLoop
import PostfixEdm.Client.WriteEdge
import PostfixEdm.System.Payloads
import PostfixEdm.System.Queries
import PostfixEdm.Php.Replies
import PostfixEdm.Client.Adjust
import PostfixEdm.Event.TimerSchedule
import PostfixEdm.Client.MailNames
import PostfixEdm.Conn.BufferRun
import PostfixEdm.Base.StreamBounds
import PostfixEdm.Base.CJsonComplete
import PostfixEdm.Base.CJsonEscapes
import PostfixEdm.Client.Mailq
import PostfixEdm.Conn.Arrival
import PostfixEdm.Conn.Link
import PostfixEdm.Lib.Pulse
import PostfixEdm.System.Delivery
import PostfixEdm.System.KeepAlive
import PostfixEdm.System.Statuses
import PostfixEdm.System.StatusHeap
import PostfixEdm.Base.CJsonBlocks
