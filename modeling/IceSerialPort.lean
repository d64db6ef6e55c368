import IceSerialPort.Reading
import IceSerialPort.Delivery
import IceSerialPort.Sending
import IceSerialPort.DeviceHistory
import IceSerialPort.DeviceQueries
import IceSerialPort.Descriptors
import IceSerialPort.Failures
import IceSerialPort.Atomicity
import IceSerialPort.Progress
import IceSerialPort.Ice.PoolShutdown
import IceSerialPort.Ice.PoolFairness
import IceSerialPort.Dispatching
import IceSerialPort.Ice.Connection
import IceSerialPort.Ice.ConnectionCalls
import IceSerialPort.Ice.Peers
import IceSerialPort.Ice.Retry
